import Mathlib.Algebra.Order.BigOperators.Group.List
import NodeMcu.Lib.Memory
import NodeMcu.Mdns.Comparison
import NodeMcu.Mdns.Receive

namespace NodeMcu.Mdns.ServiceAnswer

open NodeMcu.Lib.Text NodeMcu.Lib.Memory NodeMcu.Mdns.Names NodeMcu.Mdns.Comparison
  NodeMcu.Mdns.Receive

def mdnsMaxNameLength : Nat := 256

/-- The bytes of the pbuf. -/
def pbufSize : Nat := sizeofDnsHdr + mdnsMaxNameLength * 2 + sizeofDnsQuery

def dnsRrtypeNsec : Nat := 47
def dnsRrclassIn : Nat := 1
def dnsRrclassFlushIn : Nat := 0x8001
def sizeofMdnsService : Nat := 6
def mdnsLengthAdd : Nat := 2
def maxTxtData : Nat := 10

/-- What is given to `nodemcu_mdns_init`. -/
structure MdnsInfo where
  hostName : List UInt8
  hostDesc : List UInt8
  serviceName : List UInt8
  servicePort : Nat
  txtData : List (List UInt8)

section code

/-- One string behind those that are in the block. -/
def copyOver (room : Nat) (block src : List UInt8) : Run (List UInt8) :=
  if block.length + (src.length + 1) ≤ room then .ends (block ++ src ++ [0]) else .outside

/-- The strings one after the other, with the pointers to them. -/
def copyAll (room : Nat) : List (List UInt8) → List UInt8 → Run (List Nat × List UInt8)
  | [], block => .ends ([], block)
  | src :: rest, block => do
    let next ← copyOver room block src
    let copied ← copyAll room rest next
    return (block.length :: copied.1, copied.2)

def MdnsInfo.strings (info : MdnsInfo) : List (List UInt8) :=
  [info.hostName, info.hostDesc, info.serviceName] ++ info.txtData

/-- The copy in a block that has room for the strings and their terminators. -/
def mdnsDupInfo (info : MdnsInfo) : Run MdnsInfo := do
  let room := (info.strings.map fun src => src.length + 1).sum
  let copied ← copyAll room info.strings []
  let strings := copied.1.map fun p => cString (copied.2.drop p)
  return {
    hostName := strings.getD 0 []
    hostDesc := strings.getD 1 []
    serviceName := strings.getD 2 []
    servicePort := info.servicePort
    txtData := strings.drop 3 }

def withSuffix (name : List UInt8) : List UInt8 := bytesOf "_" ++ name ++ bytesOf "._tcp.local"

/-- The name is printed into 128 bytes. -/
def mdnsSetServicename (name : List UInt8) : Run (List UInt8) :=
  if (withSuffix name).length + 1 ≤ 128 then .ends (withSuffix name) else .outside

/-- The loop that makes lengths of the dots. The bytes `label` have been read since the last one. -/
def convertFrom (label : List UInt8) : List UInt8 → List UInt8
  | [] => UInt8.ofNat label.length :: label
  | c :: name =>
    if c = dot then UInt8.ofNat label.length :: label ++ convertFrom [] name
    else convertFrom (label ++ [c]) name

def convertName (name : List UInt8) : List UInt8 := convertFrom [] name

def mdnsAnswer (type cls ttl len : Nat) : List UInt8 :=
  bigEndian 2 type ++ (bigEndian 2 cls ++ (bigEndian 4 ttl ++ bigEndian 2 len))

def offsetPointer (offset : Nat) : List UInt8 :=
  [UInt8.ofNat (0xC0 + offset / 256), UInt8.ofNat (offset % 256)]

def platform : List UInt8 := bytesOf "platform=nodemcu"

/-- The user's attributes, and the default one unless its key is among theirs. -/
def attributes (txtData : List (List UInt8)) : List (List UInt8) :=
  let user := txtData.take maxTxtData
  if user.any fun a => a.take 9 == platform.take 9 then user else user ++ [platform]

/-- A string behind its length. -/
def convertAttribute (a : List UInt8) : List UInt8 := UInt8.ofNat a.length :: a

/-- What is written goes behind what has been written to the pbuf. -/
def put (out bytes : List UInt8) : Run (List UInt8) :=
  if out.length + bytes.length ≤ pbufSize then .ends (out ++ bytes) else .outside

inductive Result
  | errMem
  | packet (bytes : List UInt8)

/-- The header of an answer with four answers and an additional record. -/
def header (id : Nat) : List UInt8 :=
  bigEndian 2 id ++ [0x84, 0] ++ bigEndian 2 0 ++ bigEndian 2 4 ++ bigEndian 2 0 ++ bigEndian 2 1

/-- `mdns_send_service` up to the sending. The reply to an asker has another class and time. -/
def mdnsSendService (info : MdnsInfo) (serviceNameWithSuffix : List UInt8) (id : Nat)
    (allocated toAsker : Bool) : Run Result :=
  if allocated = false then .ends .errMem
  else do
    let maxTtl := if toAsker then 10 else 7200
    let ttl := min maxTtl 300
    let dnsClass := if toAsker then dnsRrclassIn else dnsRrclassFlushIn
    let out ← put [] (header id)
    let out ← put out (convertName (strlcpy serviceNameWithSuffix tmpBufSize) ++ [0])
    let length := info.hostDesc.length + mdnsLengthAdd + 1
    let out ← put out (mdnsAnswer dnsRrtypePtr dnsRrclassIn ttl length)
    let nameOffset := out.length
    let out ← put out (convertName info.hostDesc ++ [0xC0, 0x0C])
    let out ← put out (offsetPointer nameOffset)
    let attributes := attributes info.txtData
    let length := (attributes.map fun a => a.length + 1).sum % 65536
    let out ← put out (mdnsAnswer dnsRrtypeTxt dnsClass ttl length)
    let endOfPacket := out.length + length + 2 + sizeofDnsAnswer + sizeofMdnsService +
      info.hostName.length + 7 + 1 + 2 + sizeofDnsAnswer + 4 + 2 + sizeofDnsAnswer + 5
    if pbufSize ≤ endOfPacket then return .errMem
    let out ← put out (attributes.flatMap convertAttribute)
    let out ← put out (offsetPointer nameOffset)
    let tmpBuf := tmpName info.hostName mdnsLocal
    let length := tmpBuf.length + mdnsLengthAdd
    let out ← put out (mdnsAnswer dnsRrtypeSrv dnsClass ttl (sizeofMdnsService + length))
    let out ← put out (bigEndian 2 0 ++ bigEndian 2 0 ++ bigEndian 2 info.servicePort)
    let hostnameOffset := out.length
    let out ← put out (convertName tmpBuf ++ [0])
    let out ← put out (offsetPointer hostnameOffset)
    let out ← put out (mdnsAnswer dnsRrtypeA dnsClass ttl 4)
    let out ← put out [0, 0, 0, 0]
    let out ← put out (offsetPointer hostnameOffset)
    let out ← put out (mdnsAnswer dnsRrtypeNsec dnsClass ttl 5)
    let out ← put out (offsetPointer hostnameOffset ++ [0, 1, 0x40])
    return .packet out

/-- The registration and an answer. -/
def answerService (info : MdnsInfo) (id : Nat) (allocated toAsker : Bool) : Run Result := do
  let info ← mdnsDupInfo info
  let serviceNameWithSuffix ← mdnsSetServicename info.serviceName
  mdnsSendService info serviceNameWithSuffix id allocated toAsker

end code

section copying

theorem copyAll_eq (srcs : List (List UInt8)) (room : Nat) (block : List UInt8)
    (hroom : block.length + (srcs.map fun src => src.length + 1).sum ≤ room)
    (hplain : ∀ src ∈ srcs, 0 ∉ src) :
    ∃ pointers final, copyAll room srcs block = .ends (pointers, block ++ final) ∧
      (pointers.map fun p => cString ((block ++ final).drop p)) = srcs := by
  induction srcs generalizing block with
  | nil => exact ⟨[], [], by rw [copyAll, List.append_nil], rfl⟩
  | cons src rest ih =>
    rw [List.map_cons, List.sum_cons] at hroom
    have hlen : (block ++ src ++ [0]).length = block.length + (src.length + 1) := by
      simp only [List.length_append, List.length_singleton]
      omega
    obtain ⟨pointers, final, hcopy, hread⟩ := ih (block ++ src ++ [0]) (by rw [hlen]; omega)
      fun s hs => hplain s (List.mem_cons_of_mem _ hs)
    have hwhole : block ++ (src ++ 0 :: final) = block ++ src ++ [0] ++ final := by simp
    refine ⟨block.length :: pointers, src ++ 0 :: final, ?_, ?_⟩
    · rw [copyAll, copyOver, if_pos (by omega), ends_bind, hcopy, ends_bind, hwhole]
      rfl
    · rw [List.map_cons, List.drop_left, cString_append (hplain src List.mem_cons_self), hwhole,
        hread]

/-- The copy has the strings of what is copied. -/
theorem mdnsDupInfo_eq (info : MdnsInfo) (hplain : ∀ src ∈ info.strings, 0 ∉ src) :
    mdnsDupInfo info = .ends info := by
  obtain ⟨pointers, final, hcopy, hread⟩ := copyAll_eq info.strings
    (info.strings.map fun src => src.length + 1).sum [] (by rw [List.length_nil, Nat.zero_add])
    hplain
  rw [List.nil_append] at hcopy hread
  rw [mdnsDupInfo, hcopy, ends_bind]
  dsimp only
  rw [hread]
  rfl

end copying

section labels

def labelsOf (name : List UInt8) : List (List UInt8) := name.splitOn dot

theorem convertFrom_eq (label name first : List UInt8) (rest : List (List UInt8))
    (h : labelsOf name = first :: rest) :
    convertFrom label name = flat ((label ++ first) :: rest) := by
  induction name generalizing label first rest with
  | nil =>
    obtain ⟨rfl, rfl⟩ := List.cons.inj h
    simp [convertFrom, flat]
  | cons c name ih =>
    obtain ⟨first', rest', hname⟩ := List.exists_cons_of_ne_nil (List.splitOn_ne_nil dot name)
    rw [labelsOf, List.splitOn_cons_eq_if_modifyHead] at h
    rw [convertFrom]
    by_cases hc : c = dot
    · rw [if_pos (beq_iff_eq.mpr hc), hname] at h
      obtain ⟨rfl, rfl⟩ := List.cons.inj h
      rw [if_pos hc, ih [] first' rest' hname]
      simp [flat]
    · rw [if_neg (by simpa using hc), hname, List.modifyHead_cons] at h
      obtain ⟨rfl, rfl⟩ := List.cons.inj h
      rw [if_neg hc, ih (label ++ [c]) first' rest' hname]
      simp [flat]

theorem convertName_eq (name : List UInt8) : convertName name = flat (labelsOf name) := by
  obtain ⟨first, rest, hname⟩ := List.exists_cons_of_ne_nil (List.splitOn_ne_nil dot name)
  rw [convertName, convertFrom_eq [] name first rest hname, List.nil_append]
  exact congrArg flat hname.symm

theorem total_labelsOf (name : List UInt8) : total (labelsOf name) = name.length + 1 := by
  induction name with
  | nil => rfl
  | cons c name ih =>
    obtain ⟨first, rest, hname⟩ := List.exists_cons_of_ne_nil (List.splitOn_ne_nil dot name)
    rw [labelsOf, hname] at ih
    rw [labelsOf, List.splitOn_cons_eq_if_modifyHead, hname, List.length_cons, ← ih]
    unfold total
    split
    · simp only [List.map_cons, List.sum_cons, List.length_nil]
      omega
    · simp only [List.modifyHead_cons, List.map_cons, List.sum_cons, List.length_cons]
      omega

theorem convertName_length (name : List UInt8) : (convertName name).length = name.length + 1 := by
  rw [convertName_eq, flat_length, total_labelsOf]

theorem length_le_of_mem (name l : List UInt8) (h : l ∈ labelsOf name) :
    l.length ≤ name.length := by
  have hle : l.length + 1 ≤ total (labelsOf name) :=
    List.le_sum_of_mem (List.mem_map.mpr ⟨l, h, rfl⟩)
  rw [total_labelsOf] at hle
  exact Nat.le_of_succ_le_succ hle

theorem sized_of_spells (m : Bytes) (limit p : Nat) (ls : List (List UInt8))
    (h : Spells m limit p ls) : Sized ls := by
  induction h with
  | root => exact fun l hl => nomatch hl
  | @label r n l ls hn hlength hlabel hrest ih =>
    have hl := labelBytes_length m n.toNat (r + 1) (by rw [hlabel])
    rw [hlabel] at hl
    have hl : l.length = n.toNat := hl
    intro l' hl'
    obtain rfl | hl' := List.mem_cons.mp hl'
    · rw [hl]
      exact hlength
    · exact ih l' hl'
  | pointer _ _ _ _ _ _ ih => exact ih

/-- A name is not longer than the labels that are written for it. -/
theorem spells_le (m : Bytes) (limit p : Nat) (labels ls : List (List UInt8))
    (hlt : ∀ l ∈ labels, l.length < 192) (h : Holds m p (flat labels ++ [0]))
    (hspells : Spells m limit p ls) : total ls ≤ total labels := by
  induction labels generalizing p ls with
  | nil =>
    rw [spells_zero m limit p ls hspells ((holds_cons m p 0 []).mp h).1]
  | cons l labels ih =>
    have hl := hlt l List.mem_cons_self
    have hlength : (UInt8.ofNat l.length).toNat = l.length := by
      rw [UInt8.toNat_ofNat']
      omega
    rw [flat_cons, List.cons_append, List.append_assoc, holds_cons, holds_append] at h
    cases hspells with
    | root => exact Nat.zero_le _
    | @label _ n l' ls hn hsize hlabel hrest =>
      obtain rfl := Option.some.inj (h.1.symm.trans hn)
      have hl' := labelBytes_length m _ (p + 1) (by rw [hlabel])
      rw [hlabel] at hl'
      rw [hlength] at hl' hrest
      have hl' : l'.length = l.length := hl'
      have hle := ih _ ls (fun l h => hlt l (List.mem_cons_of_mem _ h)) h.2.2 hrest
      rw [total_cons, total_cons, hl']
      exact Nat.add_le_add_left hle _
    | pointer hn hpointer =>
      obtain rfl := Option.some.inj (h.1.symm.trans hn)
      rw [hlength] at hpointer
      omega

end labels

section layout

variable (info : MdnsInfo) (suffix : List UInt8)

def nameText : List UInt8 := strlcpy suffix tmpBufSize
def hostText : List UInt8 := tmpName info.hostName mdnsLocal
def txtLength : Nat := ((attributes info.txtData).map fun a => a.length + 1).sum

/-- Where the data of the records begin, and the end. -/
def nameOffset : Nat := 12 + ((nameText suffix).length + 2) + 10
def txtOffset : Nat := nameOffset suffix + (info.hostDesc.length + 3) + 12
def srvOffset : Nat := txtOffset info suffix + txtLength info + 12
def hostnameOffset : Nat := srvOffset info suffix + 6
def addressOffset : Nat := hostnameOffset info suffix + ((hostText info).length + 2) + 12
def nsecOffset : Nat := addressOffset info suffix + 16
def endOffset : Nat := nsecOffset info suffix + 5

/-- The end as it is computed for the test. -/
def endOfPacket : Nat := txtOffset info suffix + txtLength info + 59 + info.hostName.length

def backPieces (dnsClass ttl : Nat) : List UInt8 :=
  (attributes info.txtData).flatMap convertAttribute ++
  (offsetPointer (nameOffset suffix) ++
  (mdnsAnswer dnsRrtypeSrv dnsClass ttl (6 + ((hostText info).length + 2)) ++
  ((bigEndian 2 0 ++ bigEndian 2 0 ++ bigEndian 2 info.servicePort) ++
  ((convertName (hostText info) ++ [0]) ++
  (offsetPointer (hostnameOffset info suffix) ++
  (mdnsAnswer dnsRrtypeA dnsClass ttl 4 ++
  ([0, 0, 0, 0] ++
  (offsetPointer (hostnameOffset info suffix) ++
  (mdnsAnswer dnsRrtypeNsec dnsClass ttl 5 ++
  (offsetPointer (hostnameOffset info suffix) ++ [0, 1, 0x40]))))))))))

/-- The whole packet. -/
def message (id dnsClass ttl : Nat) : List UInt8 :=
  header id ++
  ((convertName (nameText suffix) ++ [0]) ++
  (mdnsAnswer dnsRrtypePtr dnsRrclassIn ttl (info.hostDesc.length + 3) ++
  ((convertName info.hostDesc ++ [0xC0, 0x0C]) ++
  (offsetPointer (nameOffset suffix) ++
  (mdnsAnswer dnsRrtypeTxt dnsClass ttl (txtLength info) ++ backPieces info suffix dnsClass ttl)))))

@[simp] theorem header_length (id : Nat) : (header id).length = 12 := by simp [header]

@[simp] theorem mdnsAnswer_length (t c ttl n : Nat) : (mdnsAnswer t c ttl n).length = 10 := by
  simp [mdnsAnswer]

@[simp] theorem offsetPointer_length (o : Nat) : (offsetPointer o).length = 2 := rfl

theorem attributes_length :
    ((attributes info.txtData).flatMap convertAttribute).length = txtLength info := by
  rw [List.length_flatMap]
  rfl

theorem put_fits (out bytes : List UInt8) (h : out.length + bytes.length ≤ 528) :
    put out bytes = .ends (out ++ bytes) := if_pos h

theorem put_then (out bytes : List UInt8) (f : List UInt8 → Run Result)
    (h : out.length + bytes.length ≤ 528) : (put out bytes >>= f) = f (out ++ bytes) := by
  rw [put_fits out bytes h, ends_bind]

theorem put_ends (out bytes next : List UInt8) (h : put out bytes = .ends next) :
    next = out ++ bytes ∧ (out ++ bytes).length ≤ 528 := by
  unfold put at h
  split at h
  · next hfits =>
    rw [List.length_append]
    exact ⟨(Run.ends.inj h).symm, hfits⟩
  · cases h

/-- Pieces that are written one after the other are written as one. -/
theorem put_put (out bytes next : List UInt8) (f : List UInt8 → Run Result) :
    (put out bytes >>= fun out => put out next >>= f) = (put out (bytes ++ next) >>= f) := by
  have hlength : (bytes ++ next).length = bytes.length + next.length := List.length_append
  by_cases h : out.length + (bytes ++ next).length ≤ 528
  · rw [put_then _ _ _ (by omega), put_then _ _ _ (by rw [List.length_append]; omega),
      put_then _ _ _ h, List.append_assoc]
  · have hover : put out (bytes ++ next) = .outside := if_neg h
    rw [hover]
    by_cases hfits : out.length + bytes.length ≤ 528
    · have hnext : put (out ++ bytes) next = .outside :=
        if_neg (show ¬_ ≤ 528 by rw [List.length_append]; omega)
      rw [put_then _ _ _ hfits, hnext]
    · have hfirst : put out bytes = .outside := if_neg hfits
      rw [hfirst]
      rfl

theorem hostText_length : (hostText info).length ≤ info.hostName.length + 6 ∧
    (hostText info).length ≤ 125 := by
  have hdot : ([dot] : List UInt8).length = 1 := rfl
  have hlocal : mdnsLocal.length = 5 := by decide +kernel
  simp only [hostText, tmpName, strlcat, strlcpy, tmpBufSize, List.length_append, List.length_take,
    hdot, hlocal]
  omega

/-- A run that ends has written the beginning of the text record into the pbuf. -/
theorem front_of_ends (id : Nat) (toAsker : Bool) (result : Result)
    (h : mdnsSendService info suffix id true toAsker = .ends result) :
    txtOffset info suffix ≤ 528 := by
  rw [mdnsSendService, if_neg (by decide)] at h
  simp only [put_put] at h
  obtain ⟨name, hname, h⟩ := (bind_ends_iff _ _ _).mp h
  obtain ⟨front, hfront, -⟩ := (bind_ends_iff _ _ _).mp h
  obtain ⟨rfl, -⟩ := put_ends _ _ _ hname
  obtain ⟨-, hlen⟩ := put_ends _ _ _ hfront
  simp only [List.length_append, List.nil_append, header_length, convertName_length,
    mdnsAnswer_length, offsetPointer_length, List.length_cons, List.length_nil] at hlen
  unfold txtOffset nameOffset nameText
  omega

/-- The answer where its beginning fits the pbuf. -/
theorem mdnsSendService_eq (id : Nat) (toAsker : Bool) (hfront : txtOffset info suffix ≤ 528)
    (htxt : txtLength info < 65536) :
    mdnsSendService info suffix id true toAsker =
      if 528 ≤ endOfPacket info suffix then .ends .errMem
      else .ends (.packet (message info suffix id
        (if toAsker then dnsRrclassIn else dnsRrclassFlushIn)
        (min (if toAsker then 10 else 7200) 300))) := by
  rw [mdnsSendService, if_neg (by decide)]
  simp only [put_put]
  generalize (if toAsker = true then dnsRrclassIn else dnsRrclassFlushIn) = dnsClass
  generalize min (if toAsker = true then 10 else 7200) 300 = ttl
  have hhost := hostText_length info
  have hattributes := attributes_length info
  have hnameText : strlcpy suffix tmpBufSize = nameText suffix := rfl
  have hhostText : tmpName info.hostName mdnsLocal = hostText info := rfl
  have htxtLength : ((attributes info.txtData).map fun a => a.length + 1).sum = txtLength info :=
    rfl
  rw [hnameText, hhostText, htxtLength, Nat.mod_eq_of_lt htxt]
  -- what is written before the test
  generalize hname : header id ++ (convertName (nameText suffix) ++ [0] ++
    mdnsAnswer dnsRrtypePtr dnsRrclassIn ttl (info.hostDesc.length + mdnsLengthAdd + 1)) = name
  have hnameLength : name.length = nameOffset suffix := by
    rw [← hname]
    simp only [List.length_append, header_length, convertName_length, List.length_singleton,
      mdnsAnswer_length, nameOffset]
    omega
  rw [txtOffset, ← hnameLength] at hfront
  rw [put_then [] _ _ (by rw [List.length_nil]; omega), List.nil_append, hnameLength]
  have hrecord : (convertName info.hostDesc ++ [0xC0, 0x0C] ++ (offsetPointer (nameOffset suffix) ++
      mdnsAnswer dnsRrtypeTxt dnsClass ttl (txtLength info))).length =
        info.hostDesc.length + 3 + 12 := by
    simp only [List.length_append, convertName_length, List.length_cons, List.length_nil,
      offsetPointer_length, mdnsAnswer_length]
  rw [put_then _ _ _ (by omega)]
  generalize hbegin : name ++ (convertName info.hostDesc ++ [0xC0, 0x0C] ++
    (offsetPointer (nameOffset suffix) ++
      mdnsAnswer dnsRrtypeTxt dnsClass ttl (txtLength info))) = front
  have hlength : front.length = txtOffset info suffix := by
    rw [← hbegin, List.length_append, hrecord, hnameLength, txtOffset]
    omega
  have hbound : front.length + txtLength info + 2 + sizeofDnsAnswer + sizeofMdnsService +
      info.hostName.length + 7 + 1 + 2 + sizeofDnsAnswer + 4 + 2 + sizeofDnsAnswer + 5 =
        endOfPacket info suffix := by
    rw [hlength, endOfPacket, sizeofDnsAnswer, sizeofMdnsService]
    omega
  rw [hbound]
  by_cases hspace : 528 ≤ endOfPacket info suffix
  · rw [if_pos hspace, if_pos (show pbufSize ≤ _ from hspace)]
    rfl
  rw [if_neg hspace, if_neg (show ¬ pbufSize ≤ _ from hspace)]
  rw [endOfPacket, ← hlength] at hspace
  -- the test has found room up to the host name
  rw [put_then _ _ _ (by
    simp only [List.length_append, hattributes, offsetPointer_length, mdnsAnswer_length,
      bigEndian_length]
    omega)]
  generalize hmiddle : front ++ ((attributes info.txtData).flatMap convertAttribute ++
    (offsetPointer (nameOffset suffix) ++
    (mdnsAnswer dnsRrtypeSrv dnsClass ttl (sizeofMdnsService +
      ((hostText info).length + mdnsLengthAdd)) ++
    (bigEndian 2 0 ++ bigEndian 2 0 ++ bigEndian 2 info.servicePort)))) = middle
  have hhostname : middle.length = hostnameOffset info suffix := by
    rw [← hmiddle, hostnameOffset, srvOffset, ← hlength]
    simp only [List.length_append, hattributes, offsetPointer_length, mdnsAnswer_length,
      bigEndian_length]
    omega
  rw [hhostname]
  rw [hostnameOffset, srvOffset, ← hlength] at hhostname
  rw [put_then _ _ _ (by
    simp only [List.length_append, convertName_length, List.length_cons, List.length_nil,
      offsetPointer_length, mdnsAnswer_length]
    omega), pure_eq_ends]
  apply congrArg (Run.ends ∘ Result.packet)
  rw [message, backPieces, ← hmiddle, ← hbegin, ← hname]
  simp only [List.append_assoc]
  rfl

theorem message_length (id dnsClass ttl : Nat) :
    (message info suffix id dnsClass ttl).length = endOffset info suffix := by
  simp only [message, backPieces, List.length_append, header_length, convertName_length,
    attributes_length, mdnsAnswer_length, offsetPointer_length, bigEndian_length, List.length_cons,
    List.length_nil, endOffset, nsecOffset, addressOffset, hostnameOffset, srvOffset, txtOffset,
    nameOffset]
  omega

theorem endOffset_le : endOffset info suffix ≤ endOfPacket info suffix := by
  have hhost := (hostText_length info).1
  unfold endOffset nsecOffset addressOffset hostnameOffset srvOffset endOfPacket
  omega

end layout

section records

/-- A resource record: where its name begins, its type, and where its data are. -/
structure Rr where
  place : Nat
  type : Nat
  data : Nat
  size : Nat

/-- The resource records from a place on. -/
inductive RecordsAt (m : Bytes) : Nat → List Rr → Nat → Prop
  | nil {p : Nat} : RecordsAt m p [] p
  | cons {p e type size last : Nat} {rest : List Rr} (hname : EndsAt m p e)
      (htype : readWord m e = .ends type) (hsize : readWord m (e + 8) = .ends size)
      (hrest : RecordsAt m (e + 10 + size) rest last) :
      RecordsAt m p (⟨p, type, e + 10, size⟩ :: rest) last

def serviceLabels (info : MdnsInfo) : List (List UInt8) := labelsOf (withSuffix info.serviceName)

def instanceLabels (info : MdnsInfo) : List (List UInt8) :=
  labelsOf info.hostDesc ++ serviceLabels info

def hostLabels (info : MdnsInfo) : List (List UInt8) :=
  labelsOf (info.hostName ++ [dot] ++ mdnsLocal)

/-- The name at a place. -/
def Names (m : Bytes) (p : Nat) (labels : List (List UInt8)) : Prop := Spells m 0x4000 p labels

/-- The records of an answer about a service, with the names and the data that they are to have. -/
structure Answers (info : MdnsInfo) (m : Bytes) (ptr txt srv a nsec : Rr) : Prop where
  types : [ptr.type, txt.type, srv.type, a.type, nsec.type] =
    [dnsRrtypePtr, dnsRrtypeTxt, dnsRrtypeSrv, dnsRrtypeA, dnsRrtypeNsec]
  service : Names m ptr.place (serviceLabels info)
  instances : Names m ptr.data (instanceLabels info) ∧ Names m txt.place (instanceLabels info) ∧
    Names m srv.place (instanceLabels info)
  host : Names m (srv.data + 6) (hostLabels info) ∧ Names m a.place (hostLabels info) ∧
    Names m nsec.place (hostLabels info) ∧ Names m nsec.data (hostLabels info)
  ptrSize : EndsAt m ptr.data (ptr.data + ptr.size)
  txtSize : txt.size = txtLength info
  txtData : Holds m txt.data ((attributes info.txtData).flatMap convertAttribute)
  srvSize : EndsAt m (srv.data + 6) (srv.data + srv.size)
  srvPort : readWord m (srv.data + 4) = .ends info.servicePort
  aSize : a.size = 4
  nsecSize : ∃ e, EndsAt m nsec.data e ∧ nsec.data + nsec.size = e + 3 ∧ Holds m e [0, 1, 0x40]

/-- The counts of the header are those of the records, which take the whole packet. -/
def WellFormed (info : MdnsInfo) (out : List UInt8) : Prop :=
  ∃ ptr txt srv a nsec, RecordsAt (bytesIn out) 12 [ptr, txt, srv, a, nsec] out.length ∧
    (readWord (bytesIn out) 4 = .ends 0 ∧ readWord (bytesIn out) 6 = .ends 4 ∧
      readWord (bytesIn out) 8 = .ends 0 ∧ readWord (bytesIn out) 10 = .ends 1) ∧
    Answers info (bytesIn out) ptr txt srv a nsec

end records

section placing

variable (info : MdnsInfo) (suffix : List UInt8) (id dnsClass ttl : Nat)

/-- The pieces of the packet where they are. -/
structure Laid (m : Bytes) : Prop where
  header : Holds m 0 (header id)
  service : Holds m 12 (convertName (nameText suffix) ++ [0])
  ptr : Holds m (12 + ((nameText suffix).length + 2))
    (mdnsAnswer dnsRrtypePtr dnsRrclassIn ttl (info.hostDesc.length + 3))
  desc : Holds m (nameOffset suffix) (convertName info.hostDesc)
  descEnd : Holds m (nameOffset suffix + (info.hostDesc.length + 1)) (offsetPointer 12)
  txtName : Holds m (nameOffset suffix + (info.hostDesc.length + 3))
    (offsetPointer (nameOffset suffix))
  txt : Holds m (nameOffset suffix + (info.hostDesc.length + 3) + 2)
    (mdnsAnswer dnsRrtypeTxt dnsClass ttl (txtLength info))
  txtData : Holds m (txtOffset info suffix) ((attributes info.txtData).flatMap convertAttribute)
  srvName : Holds m (txtOffset info suffix + txtLength info) (offsetPointer (nameOffset suffix))
  srv : Holds m (txtOffset info suffix + txtLength info + 2)
    (mdnsAnswer dnsRrtypeSrv dnsClass ttl (6 + ((hostText info).length + 2)))
  srvPort : Holds m (srvOffset info suffix + 4) (bigEndian 2 info.servicePort)
  host : Holds m (hostnameOffset info suffix) (convertName (hostText info) ++ [0])
  aName : Holds m (hostnameOffset info suffix + ((hostText info).length + 2))
    (offsetPointer (hostnameOffset info suffix))
  a : Holds m (hostnameOffset info suffix + ((hostText info).length + 2) + 2)
    (mdnsAnswer dnsRrtypeA dnsClass ttl 4)
  nsecName : Holds m (addressOffset info suffix + 4) (offsetPointer (hostnameOffset info suffix))
  nsec : Holds m (addressOffset info suffix + 4 + 2) (mdnsAnswer dnsRrtypeNsec dnsClass ttl 5)
  nsecData : Holds m (nsecOffset info suffix)
    (offsetPointer (hostnameOffset info suffix) ++ [0, 1, 0x40])

theorem holds_at (m : Bytes) (a b : Nat) (bytes : List UInt8) (h : Holds m a bytes) (hab : a = b) :
    Holds m b bytes := hab ▸ h

theorem holds_self (out : List UInt8) : Holds (bytesIn out) 0 out := by
  intro i hi
  rw [Nat.zero_add, bytesIn]

theorem laid_message :
    Laid info suffix id dnsClass ttl (bytesIn (message info suffix id dnsClass ttl)) := by
  have h := holds_self (message info suffix id dnsClass ttl)
  generalize bytesIn (message info suffix id dnsClass ttl) = m at h
  unfold message backPieces at h
  simp only [holds_append m, header_length, convertName_length, attributes_length,
    mdnsAnswer_length, offsetPointer_length, bigEndian_length, List.length_append,
    List.length_cons, List.length_nil] at h
  obtain ⟨hheader, ⟨hservice, hservice0⟩, hptr, ⟨hdesc, hdescEnd⟩, htxtName, htxt, htxtData,
    hsrvName, hsrv, ⟨-, hsrvPort⟩, ⟨hhost, hhost0⟩, haName, ha, -, hnsecName, hnsec, hnsecPointer,
    hnsecMap⟩ := h
  have hname : nameOffset suffix = 12 + ((nameText suffix).length + 2) + 10 := rfl
  have htxtAt : txtOffset info suffix = nameOffset suffix + (info.hostDesc.length + 3) + 12 := rfl
  have hsrvAt : srvOffset info suffix = txtOffset info suffix + txtLength info + 12 := rfl
  have hhostAt : hostnameOffset info suffix = srvOffset info suffix + 6 := rfl
  have haAt : addressOffset info suffix =
    hostnameOffset info suffix + ((hostText info).length + 2) + 12 := rfl
  have hnsecAt : nsecOffset info suffix = addressOffset info suffix + 16 := rfl
  exact {
    header := hheader
    service := (holds_append _ _ _ _).mpr ⟨holds_at m _ _ _ hservice (by omega),
      holds_at m _ _ _ hservice0 (by rw [convertName_length])⟩
    ptr := holds_at m _ _ _ hptr (by omega)
    desc := holds_at m _ _ _ hdesc (by omega)
    descEnd := holds_at m _ _ _ hdescEnd (by omega)
    txtName := holds_at m _ _ _ htxtName (by omega)
    txt := holds_at m _ _ _ htxt (by omega)
    txtData := holds_at m _ _ _ htxtData (by omega)
    srvName := holds_at m _ _ _ hsrvName (by omega)
    srv := holds_at m _ _ _ hsrv (by omega)
    srvPort := holds_at m _ _ _ hsrvPort (by omega)
    host := (holds_append _ _ _ _).mpr ⟨holds_at m _ _ _ hhost (by omega),
      holds_at m _ _ _ hhost0 (by rw [convertName_length]; omega)⟩
    aName := holds_at m _ _ _ haName (by omega)
    a := holds_at m _ _ _ ha (by omega)
    nsecName := holds_at m _ _ _ hnsecName (by omega)
    nsec := holds_at m _ _ _ hnsec (by omega)
    nsecData := (holds_append _ _ _ _).mpr ⟨holds_at m _ _ _ hnsecPointer (by omega),
      holds_at m _ _ _ hnsecMap (by rw [offsetPointer_length]; omega)⟩ }

end placing

section parsing

variable (m : Bytes)

theorem readWord_bigEndian (a n : Nat) (hn : n < 65536) (h : Holds m a (bigEndian 2 n)) :
    readWord m a = .ends n := by
  have hbytes : bigEndian 2 n = [UInt8.ofNat (n / 256), UInt8.ofNat n] := by simp [bigEndian]
  rw [hbytes, holds_cons, holds_cons] at h
  rw [readWord, readByte, h.1, ends_bind, readByte, h.2.1, ends_bind, pure_eq_ends,
    UInt8.toNat_ofNat', UInt8.toNat_ofNat']
  congr 1
  omega

/-- A name and a fixed part say where the next record is. -/
theorem recordsAt_cons_iff (p e type dnsClass ttl size last : Nat) (r : Rr) (rest : List Rr)
    (hname : EndsAt m p e) (h : Holds m e (mdnsAnswer type dnsClass ttl size))
    (htype : type < 65536) (hsize : size < 65536) :
    RecordsAt m p (r :: rest) last ↔
      r = ⟨p, type, e + 10, size⟩ ∧ RecordsAt m (e + 10 + size) rest last := by
  simp only [mdnsAnswer, holds_append m, bigEndian_length, Nat.add_assoc] at h
  obtain ⟨hwordType, -, -, hwordSize⟩ := h
  have htypeAt := readWord_bigEndian m e type htype hwordType
  have hsizeAt := readWord_bigEndian m (e + 8) size hsize hwordSize
  constructor
  · intro hrecords
    cases hrecords with
    | cons hname' htype' hsize' hrest =>
      obtain rfl := endsAt_unique m _ _ _ hname hname'
      obtain rfl := Run.ends.inj (htypeAt.symm.trans htype')
      obtain rfl := Run.ends.inj (hsizeAt.symm.trans hsize')
      exact ⟨rfl, hrest⟩
  · rintro ⟨rfl, hrest⟩
    exact .cons hname htypeAt hsizeAt hrest

theorem pointer_bytes (p o : Nat) (ho : o < 0x4000) (h : Holds m p (offsetPointer o)) :
    ∃ n b : UInt8, m p = some n ∧ m (p + 1) = some b ∧ 192 ≤ n.toNat ∧ pointedAt n b = o := by
  rw [offsetPointer, holds_cons, holds_cons] at h
  refine ⟨_, _, h.1, h.2.1, ?_, ?_⟩
  · rw [UInt8.toNat_ofNat']
    omega
  · rw [pointedAt, UInt8.toNat_ofNat', UInt8.toNat_ofNat']
    omega

theorem endsAt_pointer (p o : Nat) (ho : o < 0x4000) (h : Holds m p (offsetPointer o)) :
    EndsAt m p (p + 2) := by
  obtain ⟨n, b, hn, -, hpointer, -⟩ := pointer_bytes m p o ho h
  exact .pointer hn hpointer

theorem names_pointer (p o : Nat) (labels : List (List UInt8)) (ho : o < 0x4000) (hback : o < p)
    (h : Holds m p (offsetPointer o)) (hnames : Names m o labels) : Names m p labels := by
  obtain ⟨n, b, hn, hb, hpointer, hplace⟩ := pointer_bytes m p o ho h
  apply Spells.pointer hn hpointer hb
  · rwa [hplace]
  · rwa [hplace]
  · rwa [hplace]

theorem names_of_holds (p : Nat) (name : List UInt8) (hsized : Sized (labelsOf name))
    (h : Holds m p (convertName name ++ [0])) :
    Names m p (labelsOf name) ∧ EndsAt m p (p + (name.length + 2)) := by
  rw [convertName_eq, holds_append, flat_length, total_labelsOf, holds_cons] at h
  have hzero : m (p + total (labelsOf name)) = some 0 := by
    rw [total_labelsOf]
    exact h.2.1
  constructor
  · have hnames := spells_flat m 0x4000 p (labelsOf name) [] hsized h.1 (.root hzero)
    rwa [List.append_nil] at hnames
  · have hend := EndsAt.zero hzero (.inl rfl)
    rw [total_labelsOf] at hend
    apply endsAt_flat m p _ (labelsOf name) hsized h.1
    rw [total_labelsOf]
    exact hend

/-- A name that goes on at another place. -/
theorem names_of_holds_pointer (p o : Nat) (name : List UInt8) (more : List (List UInt8))
    (hsized : Sized (labelsOf name)) (h : Holds m p (convertName name))
    (hpointer : Holds m (p + (name.length + 1)) (offsetPointer o)) (ho : o < 0x4000) (hback : o < p)
    (hmore : Names m o more) :
    Names m p (labelsOf name ++ more) ∧ EndsAt m p (p + (name.length + 3)) := by
  rw [convertName_eq] at h
  constructor
  · apply spells_flat m 0x4000 p (labelsOf name) more hsized h
    rw [total_labelsOf]
    exact names_pointer m _ o more ho (by omega) hpointer hmore
  · apply endsAt_flat m p _ (labelsOf name) hsized h
    rw [total_labelsOf]
    exact endsAt_pointer m _ o ho hpointer

/-- A name that is spelled by what is written for another is not longer. -/
theorem fits_of_names (p : Nat) (name full : List UInt8) (hshort : name.length ≤ 125)
    (h : Holds m p (convertName name ++ [0])) (hnames : Names m p (labelsOf full)) :
    full.length ≤ name.length := by
  rw [convertName_eq] at h
  have hle := spells_le m 0x4000 p (labelsOf name) (labelsOf full) ?_ h hnames
  · rw [total_labelsOf, total_labelsOf] at hle
    exact Nat.le_of_succ_le_succ hle
  · intro l hl
    have hlength := length_le_of_mem name l hl
    omega

end parsing

section answer

variable (info : MdnsInfo) (suffix : List UInt8) (id dnsClass ttl : Nat) (m : Bytes)

theorem offsets_lt (hend : endOffset info suffix ≤ 528) : 12 < nameOffset suffix ∧
    nameOffset suffix + (info.hostDesc.length + 3) < 528 ∧ txtLength info < 528 ∧
    (hostText info).length < 500 ∧ hostnameOffset info suffix < 528 := by
  unfold endOffset nsecOffset addressOffset at hend
  unfold hostnameOffset srvOffset txtOffset at *
  have hname : nameOffset suffix = 12 + ((nameText suffix).length + 2) + 10 := rfl
  omega

/-- The five records of the packet. -/
theorem recordsAt_laid (h : Laid info suffix id dnsClass ttl m)
    (hend : endOffset info suffix ≤ 528)
    (hservice : EndsAt m 12 (12 + ((nameText suffix).length + 2))) (ptr txt srv a nsec : Rr) :
    RecordsAt m 12 [ptr, txt, srv, a, nsec] (endOffset info suffix) ↔
      ptr = ⟨12, dnsRrtypePtr, nameOffset suffix, info.hostDesc.length + 3⟩ ∧
      txt = ⟨nameOffset suffix + (info.hostDesc.length + 3), dnsRrtypeTxt, txtOffset info suffix,
        txtLength info⟩ ∧
      srv = ⟨txtOffset info suffix + txtLength info, dnsRrtypeSrv, srvOffset info suffix,
        6 + ((hostText info).length + 2)⟩ ∧
      a = ⟨hostnameOffset info suffix + ((hostText info).length + 2), dnsRrtypeA,
        addressOffset info suffix, 4⟩ ∧
      nsec = ⟨addressOffset info suffix + 4, dnsRrtypeNsec, nsecOffset info suffix, 5⟩ := by
  obtain ⟨-, hdesc, htxt, hhost, hhostname⟩ := offsets_lt info suffix hend
  have htxtName := endsAt_pointer m _ _ (by omega) h.txtName
  have hsrvName := endsAt_pointer m _ _ (by omega) h.srvName
  have haName := endsAt_pointer m _ _ (by omega) h.aName
  have hnsecName := endsAt_pointer m _ _ (by omega) h.nsecName
  rw [recordsAt_cons_iff m _ _ _ _ _ _ _ _ _ hservice h.ptr (by decide) (by omega)]
  apply and_congr_right'
  refine (recordsAt_cons_iff m _ _ _ _ _ _ _ _ _ htxtName h.txt (by decide) (by omega)).trans ?_
  apply and_congr_right'
  refine (recordsAt_cons_iff m _ _ _ _ _ _ _ _ _ hsrvName h.srv (by decide) (by omega)).trans ?_
  apply and_congr_right'
  have haddress : srvOffset info suffix + (6 + ((hostText info).length + 2)) =
      hostnameOffset info suffix + ((hostText info).length + 2) := (Nat.add_assoc _ 6 _).symm
  have hplace : txtOffset info suffix + txtLength info + 2 + 10 +
      (6 + ((hostText info).length + 2)) =
        hostnameOffset info suffix + ((hostText info).length + 2) := haddress
  rw [hplace]
  rw [recordsAt_cons_iff m _ _ _ _ _ _ _ _ _ haName h.a (by decide) (by decide)]
  apply and_congr_right'
  refine (recordsAt_cons_iff m _ _ _ _ _ _ _ _ _ hnsecName h.nsec (by decide)
    (by decide)).trans ?_
  exact and_iff_left .nil

/-- The names in the packet can be those of the service and of the host. -/
structure Spellable : Prop where
  service : (withSuffix info.serviceName).length ≤ 125 ∧ Sized (serviceLabels info)
  desc : Sized (labelsOf info.hostDesc)
  host : info.hostName.length + 6 ≤ 125 ∧ Sized (hostLabels info)

theorem nameText_eq (h : suffix.length ≤ 125) : nameText suffix = suffix := by
  rw [nameText, strlcpy]
  exact List.take_of_length_le h

theorem strlcat_eq (dst src : List UInt8) (size : Nat) (h : dst.length + src.length ≤ size - 1) :
    strlcat dst src size = dst ++ src := by
  rw [strlcat, List.take_of_length_le (by omega)]

theorem hostText_eq (h : info.hostName.length + 6 ≤ 125) :
    hostText info = info.hostName ++ [dot] ++ mdnsLocal := by
  have hlocal : mdnsLocal.length = 5 := by decide +kernel
  have hsize : tmpBufSize = 126 := rfl
  have hname : strlcpy info.hostName tmpBufSize = info.hostName := by
    apply List.take_of_length_le
    omega
  have hdotted : strlcat info.hostName [dot] tmpBufSize = info.hostName ++ [dot] := by
    apply strlcat_eq
    rw [List.length_singleton]
    omega
  rw [hostText, tmpName, hname, hdotted]
  apply strlcat_eq
  rw [List.length_append, List.length_singleton]
  omega

theorem counts_laid (h : Laid info suffix id dnsClass ttl m) :
    readWord m 4 = .ends 0 ∧ readWord m 6 = .ends 4 ∧ readWord m 8 = .ends 0 ∧
      readWord m 10 = .ends 1 := by
  have hheader := h.header
  simp only [header, holds_append m, List.length_append, bigEndian_length, List.length_cons,
    List.length_nil, Nat.zero_add, Nat.reduceAdd] at hheader
  obtain ⟨⟨⟨⟨-, hquestions⟩, hanswers⟩, hauthorities⟩, hextras⟩ := hheader
  exact ⟨readWord_bigEndian m 4 0 (by decide) hquestions,
    readWord_bigEndian m 6 4 (by decide) hanswers,
    readWord_bigEndian m 8 0 (by decide) hauthorities,
    readWord_bigEndian m 10 1 (by decide) hextras⟩

/-- The names of the records. -/
theorem answers_of_spellable (h : Laid info (withSuffix info.serviceName) id dnsClass ttl m)
    (hend : endOffset info (withSuffix info.serviceName) ≤ 528) (hport : info.servicePort < 65536)
    (hspell : Spellable info) (ptr txt srv a nsec : Rr)
    (hrecords : RecordsAt m 12 [ptr, txt, srv, a, nsec]
      (endOffset info (withSuffix info.serviceName))) :
    Answers info m ptr txt srv a nsec := by
  obtain ⟨hname12, hdesc, htxt, hhost, hhostname⟩ := offsets_lt info _ hend
  have htext := nameText_eq (withSuffix info.serviceName) hspell.service.1
  have hhostText := hostText_eq info hspell.host.1
  have hserviceAt := h.service
  rw [htext] at hserviceAt
  have hservice := names_of_holds m 12 _ hspell.service.2 hserviceAt
  have hinstance := names_of_holds_pointer m _ 12 info.hostDesc _ hspell.desc h.desc h.descEnd
    (by decide) hname12 hservice.1
  have hhostAt := h.host
  rw [hhostText] at hhostAt
  have hhostNames := names_of_holds m _ _ hspell.host.2 hhostAt
  rw [recordsAt_laid info _ id dnsClass ttl m h hend (by rw [htext]; exact hservice.2)]
    at hrecords
  obtain ⟨rfl, rfl, rfl, rfl, rfl⟩ := hrecords
  obtain ⟨hnsecPointer, hnsecMap⟩ := (holds_append m _ _ _).mp h.nsecData
  rw [offsetPointer_length] at hnsecMap
  have htxtAt : txtOffset info (withSuffix info.serviceName) =
    nameOffset (withSuffix info.serviceName) + (info.hostDesc.length + 3) + 12 := rfl
  have haAt : addressOffset info (withSuffix info.serviceName) =
    hostnameOffset info (withSuffix info.serviceName) + ((hostText info).length + 2) + 12 := rfl
  have hnsecAt : nsecOffset info (withSuffix info.serviceName) =
    addressOffset info (withSuffix info.serviceName) + 16 := rfl
  have htxtName := names_pointer m _ _ _ (by omega) (by omega) h.txtName hinstance.1
  have hsrvName := names_pointer m _ _ _ (by omega) (by omega) h.srvName hinstance.1
  have haName := names_pointer m _ _ _ (by omega) (by omega) h.aName hhostNames.1
  have hnsecName := names_pointer m _ _ _ (by omega) (by omega) h.nsecName hhostNames.1
  have hnsecData := names_pointer m _ _ _ (by omega) (by omega) hnsecPointer hhostNames.1
  exact {
    types := rfl
    service := hservice.1
    instances := ⟨hinstance.1, htxtName, hsrvName⟩
    host := ⟨hhostNames.1, haName, hnsecName, hnsecData⟩
    ptrSize := hinstance.2
    txtSize := rfl
    txtData := h.txtData
    srvSize := by
      have hsize := hhostNames.2
      rw [← hhostText, hostnameOffset, Nat.add_assoc] at hsize
      exact hsize
    srvPort := readWord_bigEndian m _ _ hport h.srvPort
    aSize := rfl
    nsecSize := ⟨_, endsAt_pointer m _ _ (by omega) hnsecPointer, rfl, hnsecMap⟩ }

/-- Names that are read where the records have them can be those of the service and of the host. -/
theorem spellable_of_answers (h : Laid info (withSuffix info.serviceName) id dnsClass ttl m)
    (hend : endOffset info (withSuffix info.serviceName) ≤ 528) (ptr txt srv a nsec : Rr)
    (hrecords : RecordsAt m 12 [ptr, txt, srv, a, nsec]
      (endOffset info (withSuffix info.serviceName)))
    (hanswers : Answers info m ptr txt srv a nsec) : Spellable info := by
  have hplace : ptr.place = 12 := by
    cases hrecords
    rfl
  have hservice := hanswers.service
  rw [hplace] at hservice
  have hsized := sized_of_spells m _ _ _ hservice
  have hshort : (nameText (withSuffix info.serviceName)).length ≤ 125 := by
    rw [nameText, strlcpy]
    exact List.length_take_le _ _
  have hfits := fits_of_names m 12 _ _ hshort h.service hservice
  have htext := nameText_eq (withSuffix info.serviceName) (hfits.trans hshort)
  have hserviceAt := h.service
  rw [htext] at hserviceAt
  have hserviceEnd := (names_of_holds m 12 _ hsized hserviceAt).2
  rw [recordsAt_laid info _ id dnsClass ttl m h hend (by rw [htext]; exact hserviceEnd)] at hrecords
  obtain ⟨rfl, rfl, rfl, rfl, rfl⟩ := hrecords
  have hinstance := sized_of_spells m _ _ _ hanswers.instances.1
  have hhost := hanswers.host.1
  have hhostFits := fits_of_names m _ _ _ (hostText_length info).2 h.host hhost
  have hlocal : mdnsLocal.length = 5 := by decide +kernel
  rw [List.length_append, List.length_append, List.length_singleton, hlocal] at hhostFits
  have hhostShort := (hostText_length info).2
  exact {
    service := ⟨hfits.trans hshort, hsized⟩
    desc := fun l hl => hinstance l (List.mem_append_left _ hl)
    host := ⟨by omega, sized_of_spells m _ _ _ hhost⟩ }

theorem wellFormed_message_iff (hend : endOffset info (withSuffix info.serviceName) ≤ 528)
    (hport : info.servicePort < 65536) :
    WellFormed info (message info (withSuffix info.serviceName) id dnsClass ttl) ↔
      Spellable info := by
  have hlaid := laid_message info (withSuffix info.serviceName) id dnsClass ttl
  unfold WellFormed
  rw [message_length]
  constructor
  · rintro ⟨ptr, txt, srv, a, nsec, hrecords, -, hanswers⟩
    exact spellable_of_answers info id dnsClass ttl _ hlaid hend ptr txt srv a nsec hrecords
      hanswers
  · intro hspell
    have hserviceAt := hlaid.service
    rw [nameText_eq _ hspell.service.1] at hserviceAt
    have hservice := (names_of_holds _ 12 _ hspell.service.2 hserviceAt).2
    have hrecords := (recordsAt_laid info _ id dnsClass ttl _ hlaid hend
      (by rw [nameText_eq _ hspell.service.1]; exact hservice) _ _ _ _ _).mpr
      ⟨rfl, rfl, rfl, rfl, rfl⟩
    exact ⟨_, _, _, _, _, hrecords, counts_laid info _ id dnsClass ttl _ hlaid,
      answers_of_spellable info id dnsClass ttl _ hlaid hend hport hspell _ _ _ _ _ hrecords⟩

end answer

section law

/-- What can be registered. Each attribute fits its length byte. -/
structure Registered where
  info : MdnsInfo
  plain : ∀ src ∈ info.strings, 0 ∉ src
  sized : ∀ a ∈ info.txtData, a.length ≤ 255
  count : info.txtData.length ≤ maxTxtData
  port : info.servicePort < 65536

/-- The answer is refused, or it is a packet that has been written inside the pbuf. -/
def Law (r : Registered) : Prop :=
  ∀ id allocated toAsker, ∃ result, answerService r.info id allocated toAsker = .ends result ∧
    ∀ out, result = .packet out → WellFormed r.info out

/-- The bytes of the service name in the packet, but for the first and the last. -/
def writtenName (info : MdnsInfo) : Nat := min (info.serviceName.length + 12) 125

/-- The service name fits the buffer that it is printed into, what is written before the test fits
the pbuf, and if the test finds room the names are whole and have no label that cannot be
written. -/
structure Meets (info : MdnsInfo) : Prop where
  printed : info.serviceName.length ≤ 115
  front : writtenName info + info.hostDesc.length ≤ 489
  spelled : writtenName info + info.hostDesc.length + txtLength info + info.hostName.length < 430 →
    (info.serviceName.length ≤ 113 ∧ info.hostName.length ≤ 119) ∧
      Sized (serviceLabels info) ∧ Sized (labelsOf info.hostDesc) ∧ Sized (hostLabels info)

theorem withSuffix_length (name : List UInt8) : (withSuffix name).length = name.length + 12 := by
  have hbegin : (bytesOf "_").length = 1 := by decide +kernel
  have hend : (bytesOf "._tcp.local").length = 11 := by decide +kernel
  rw [withSuffix, List.length_append, List.length_append, hbegin, hend]
  omega

theorem nameText_length (name : List UInt8) :
    (nameText (withSuffix name)).length = min (name.length + 12) 125 := by
  rw [nameText, strlcpy, List.length_take, withSuffix_length, Nat.min_comm]
  rfl

variable (r : Registered)

theorem txtLength_lt : txtLength r.info < 65536 := by
  have hplatform : platform.length ≤ 255 := by decide +kernel
  have hlengths : ∀ a ∈ attributes r.info.txtData, a.length ≤ 255 := by
    intro a ha
    unfold attributes at ha
    dsimp only at ha
    split at ha
    · exact r.sized a (List.mem_of_mem_take ha)
    · obtain ha | ha := List.mem_append.mp ha
      · exact r.sized a (List.mem_of_mem_take ha)
      · rw [List.mem_singleton.mp ha]
        exact hplatform
  have hcount : (attributes r.info.txtData).length ≤ 11 := by
    have htake : (r.info.txtData.take maxTxtData).length ≤ 10 := List.length_take_le _ _
    unfold attributes
    dsimp only
    split
    · omega
    · rw [List.length_append, List.length_singleton]
      omega
  have hsum : txtLength r.info ≤
      ((attributes r.info.txtData).map fun a => a.length + 1).length * 256 := by
    apply List.sum_le_card_nsmul
    intro n hn
    obtain ⟨a, ha, rfl⟩ := List.mem_map.mp hn
    exact Nat.succ_le_succ (hlengths a ha)
  rw [List.length_map] at hsum
  omega

theorem mdnsSetServicename_eq (name : List UInt8) (h : name.length ≤ 115) :
    mdnsSetServicename name = .ends (withSuffix name) := by
  rw [mdnsSetServicename, withSuffix_length, if_pos (by omega)]

theorem answerService_eq (id : Nat) (allocated toAsker : Bool) :
    answerService r.info id allocated toAsker =
      mdnsSetServicename r.info.serviceName >>= fun suffix =>
        mdnsSendService r.info suffix id allocated toAsker := by
  rw [answerService, mdnsDupInfo_eq r.info r.plain, ends_bind]

/-- The answer of a registered service is refused or well formed if and only if its names fit what
they are written into. -/
theorem serviceAnswer_iff : Law r ↔ Meets r.info := by
  have hsuffix := withSuffix_length r.info.serviceName
  have hname := nameText_length r.info.serviceName
  have hfrontAt : txtOffset r.info (withSuffix r.info.serviceName) =
      writtenName r.info + r.info.hostDesc.length + 39 := by
    rw [txtOffset, nameOffset, hname, writtenName]
    omega
  have hbound := endOffset_le r.info (withSuffix r.info.serviceName)
  have hendAt : endOfPacket r.info (withSuffix r.info.serviceName) = writtenName r.info +
      r.info.hostDesc.length + 39 + txtLength r.info + 59 + r.info.hostName.length := by
    rw [endOfPacket, hfrontAt]
  constructor
  · intro hlaw
    obtain ⟨result, hresult, hwell⟩ := hlaw 0 true true
    rw [answerService_eq] at hresult
    obtain ⟨suffix, hset, hsend⟩ := (bind_ends_iff _ _ _).mp hresult
    unfold mdnsSetServicename at hset
    split at hset
    · next hprinted =>
      obtain rfl := Run.ends.inj hset
      have hfront := front_of_ends r.info _ 0 true result hsend
      rw [mdnsSendService_eq r.info _ 0 true hfront (txtLength_lt r)] at hsend
      refine ⟨by omega, by omega, ?_⟩
      intro hspace
      rw [if_neg (by omega)] at hsend
      have hspell := (wellFormed_message_iff r.info 0 _ _ (by omega) r.port).mp
        (hwell _ (Run.ends.inj hsend).symm)
      have hservice := hspell.service.1
      have hhost := hspell.host.1
      exact ⟨⟨by omega, by omega⟩, hspell.service.2, hspell.desc, hspell.host.2⟩
    · cases hset
  · intro hmeets id allocated toAsker
    rw [answerService_eq, mdnsSetServicename_eq _ hmeets.printed, ends_bind]
    cases allocated with
    | false => exact ⟨.errMem, rfl, nofun⟩
    | true =>
      have hfront := hmeets.front
      rw [mdnsSendService_eq r.info _ id toAsker (by omega) (txtLength_lt r)]
      split
      · exact ⟨.errMem, rfl, nofun⟩
      · next hspace =>
        obtain ⟨⟨hserviceName, hhostName⟩, hservice, hdesc, hhost⟩ := hmeets.spelled (by omega)
        refine ⟨_, rfl, ?_⟩
        intro out hout
        obtain rfl := Result.packet.inj hout
        exact (wellFormed_message_iff r.info id _ _ (by omega) r.port).mpr
          ⟨⟨by omega, hservice⟩, hdesc, by omega, hhost⟩

/-- A description of nine labels, of which eight have 60 bytes. -/
def longDescription : Registered where
  info := {
    hostName := bytesOf "node"
    hostDesc := (List.replicate 8 (List.replicate 60 0x61 ++ [dot])).flatten ++ [0x61]
    serviceName := bytesOf "http"
    servicePort := 80
    txtData := [] }
  plain := by decide +kernel
  sized := by decide
  count := by decide
  port := by decide

/-- The description is written behind the end of the pbuf. -/
theorem longDescription_not_law : ¬ Law longDescription := by
  intro hlaw
  obtain ⟨result, hresult, -⟩ := hlaw 0 true true
  rw [answerService_eq, mdnsSetServicename_eq _ (by decide +kernel), ends_bind] at hresult
  have hfront := front_of_ends _ _ 0 true result hresult
  exact absurd hfront (by decide +kernel)

end law

end NodeMcu.Mdns.ServiceAnswer
