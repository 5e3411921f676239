import NodeMcu.Crypto.Streaming

namespace NodeMcu.Crypto.Digests

open NodeMcu.Lib.Memory NodeMcu.Crypto.Sha2 NodeMcu.Crypto.Standard NodeMcu.Crypto.Streaming

variable {σ : Type}

/-! ## The functions on digests -/

structure DigestMechInfo (σ : Type) where
  create : σ
  update : σ → List UInt8 → σ
  finalize : σ → List UInt8
  digestSize : Nat
  blockSize : Nat

inductive Errno
  | einval | enomem
  deriving DecidableEq

/-- Whether there is memory for the context is said, and in `crypto_fhash` for the buffer too. -/
def cryptoHash (mi : Option (DigestMechInfo σ)) (memory : Bool) (data : List UInt8) :
    Except Errno (List UInt8) :=
  match mi with
  | none => .error .einval
  | some mi =>
    if memory then .ok (mi.finalize (mi.update mi.create data))
    else .error .enomem

/-- The loop that reads a file, from its position on. The bytes that are left bound the reads. -/
def fhashLoop (mi : DigestMechInfo σ) : Nat → σ → List UInt8 → σ
  | 0, ctx, _ => ctx
  | n + 1, ctx, file =>
    let buffer := file.take mi.blockSize
    let ctx := mi.update ctx buffer
    if buffer.length = mi.blockSize then fhashLoop mi n ctx (file.drop mi.blockSize) else ctx

def cryptoFhash (mi : Option (DigestMechInfo σ)) (memory bufferMemory : Bool)
    (file : List UInt8) : Except Errno (List UInt8) :=
  match mi with
  | none => .error .einval
  | some mi =>
    if memory ∧ bufferMemory then
      .ok (mi.finalize (fhashLoop mi (file.length + 1) mi.create file))
    else .error .enomem

/-- The key is taken into a pad byte by byte. -/
def xorKey (key pad : List UInt8) : List UInt8 :=
  (List.range key.length).foldl (fun pad i => pad.set i (pad.getD i 0 ^^^ key.getD i 0)) pad

def cryptoHmac (mi : Option (DigestMechInfo σ)) (memory : Bool) (data key : List UInt8) :
    Except Errno (List UInt8) :=
  match mi with
  | none => .error .einval
  | some mi =>
    if memory then
      let key :=
        if key.length > mi.blockSize then
          (mi.finalize (mi.update mi.create key)).take mi.digestSize
        else key
      let bs := mi.blockSize
      let kIpad := xorKey key (List.replicate bs 0x36)
      let kOpad := xorKey key (List.replicate bs 0x5c)
      let digest := mi.finalize (mi.update (mi.update mi.create kIpad) data)
      .ok (mi.finalize (mi.update (mi.update mi.create kOpad) (digest.take mi.digestSize)))
    else .error .enomem

/-! ### What they compute -/

/-- The context has a hash of all that it has been updated with, however it is cut. -/
structure Streams (mi : DigestMechInfo σ) (hash : List UInt8 → List UInt8) : Prop where
  pieces (pieces : List (List UInt8)) :
    mi.finalize (pieces.foldl mi.update mi.create) = hash pieces.flatten
  length (message : List UInt8) : (hash message).length = mi.digestSize
  size : mi.digestSize ≤ mi.blockSize
  pos : 0 < mi.digestSize

/-- The hash of the key in the outer pad and the hash of the key in the inner pad and the data. -/
def hmac (hash : List UInt8 → List UInt8) (blockSize : Nat) (key data : List UInt8) :
    List UInt8 :=
  let short := if blockSize < key.length then hash key else key
  let key := short ++ List.replicate (blockSize - short.length) 0
  hash (key.map (· ^^^ 0x5c) ++ hash (key.map (· ^^^ 0x36) ++ data))

variable {mi : DigestMechInfo σ} {hash : List UInt8 → List UInt8}

/-- The pieces in which a file is read. -/
theorem fhashLoop_pieces (hpos : 0 < mi.blockSize) {n : Nat} (ctx : σ) {file : List UInt8}
    (hn : file.length < n) :
    ∃ pieces : List (List UInt8), pieces.flatten = file ∧
      fhashLoop mi n ctx file = pieces.foldl mi.update ctx := by
  induction n generalizing ctx file with
  | zero => omega
  | succ n ih =>
    rw [fhashLoop]
    split_ifs with hfull
    · rw [List.length_take] at hfull
      have hshort : (file.drop mi.blockSize).length < n := by
        rw [List.length_drop]
        omega
      obtain ⟨pieces, hflat, hloop⟩ := ih (mi.update ctx (file.take mi.blockSize)) hshort
      refine ⟨file.take mi.blockSize :: pieces, ?_, hloop⟩
      rw [List.flatten_cons, hflat, List.take_append_drop]
    · rw [List.length_take] at hfull
      refine ⟨[file.take mi.blockSize], ?_, rfl⟩
      rw [List.flatten_singleton, List.take_of_length_le (by omega)]

theorem xorKey_eq {key : List UInt8} {pad : UInt8} {n : Nat} (hlen : key.length ≤ n) :
    xorKey key (List.replicate n pad) =
      (key ++ List.replicate (n - key.length) 0).map (· ^^^ pad) := by
  have hloop (k : Nat) (hk : k ≤ key.length) :
      (List.range k).foldl (fun pad i => pad.set i (pad.getD i 0 ^^^ key.getD i 0))
          (List.replicate n pad) =
        (key.take k).map (· ^^^ pad) ++ List.replicate (n - k) pad := by
    induction k with
    | zero => rfl
    | succ k ih =>
      have hlt : k < key.length := hk
      have htake : ((key.take k).map (· ^^^ pad)).length = k := by
        rw [List.length_map, List.length_take, Nat.min_eq_left (by omega)]
      have hsucc : n - k = n - (k + 1) + 1 := by omega
      rw [List.range_succ, List.foldl_append, ih (by omega), List.foldl_cons, List.foldl_nil,
        List.set_append_right _ _ (by omega), htake, Nat.sub_self, hsucc, List.replicate_succ,
        List.set_cons_zero, List.take_succ_eq_append_getElem hlt, List.map_append,
        List.append_assoc, List.getD_eq_getElem?_getD,
        List.getElem?_append_right (by omega), htake, Nat.sub_self, List.getElem?_cons_zero,
        Option.getD_some, List.getD_eq_getElem?_getD, List.getElem?_eq_getElem hlt,
        Option.getD_some, UInt8.xor_comm]
      rfl
  rw [xorKey, hloop _ (Nat.le_refl _), List.take_length, List.map_append, List.map_replicate,
    UInt8.zero_xor]

theorem Streams.one (h : Streams mi hash) (data : List UInt8) :
    mi.finalize (mi.update mi.create data) = hash data := by
  have hone := h.pieces [data]
  rwa [List.flatten_singleton] at hone

theorem Streams.two (h : Streams mi hash) (first second : List UInt8) :
    mi.finalize (mi.update (mi.update mi.create first) second) = hash (first ++ second) := by
  have htwo := h.pieces [first, second]
  rwa [List.flatten_cons, List.flatten_singleton] at htwo

theorem Streams.take (h : Streams mi hash) (message : List UInt8) :
    (hash message).take mi.digestSize = hash message := by
  rw [← h.length message, List.take_length]

theorem cryptoFhash_eq (h : Streams mi hash) (file : List UInt8) :
    cryptoFhash (some mi) true true file = .ok (hash file) := by
  obtain ⟨pieces, hflat, hloop⟩ :=
    fhashLoop_pieces (Nat.lt_of_lt_of_le h.pos h.size) mi.create (Nat.lt_succ_self file.length)
  rw [cryptoFhash, if_pos ⟨rfl, rfl⟩, hloop, h.pieces, hflat]

theorem cryptoHmac_eq (h : Streams mi hash) (data key : List UInt8) :
    cryptoHmac (some mi) true data key = .ok (hmac hash mi.blockSize key data) := by
  have hkey : (if key.length > mi.blockSize then
      (mi.finalize (mi.update mi.create key)).take mi.digestSize else key) =
        if mi.blockSize < key.length then hash key else key := by
    rw [h.one, h.take]
  have hlen : (if mi.blockSize < key.length then hash key else key).length ≤ mi.blockSize := by
    split_ifs with hlong
    · rw [h.length]
      exact h.size
    · exact Nat.not_lt.mp hlong
  rw [cryptoHmac, if_pos rfl, hkey, hmac]
  dsimp only
  rw [h.two, h.two, h.take, xorKey_eq hlen, xorKey_eq hlen]

/-- Where there is memory the digest of data, of a file of any length, and the signature with a key
of any length are those of the hash function. -/
theorem digests_eq (h : Streams mi hash) (data file key : List UInt8) :
    cryptoHash (some mi) true data = .ok (hash data) ∧
      cryptoFhash (some mi) true true file = .ok (hash file) ∧
      cryptoHmac (some mi) true data key = .ok (hmac hash mi.blockSize key data) :=
  ⟨congrArg Except.ok (h.one data), cryptoFhash_eq h file, cryptoHmac_eq h data key⟩

/-! ### The functions of the SHA-2 family -/

def sha256Mech : DigestMechInfo (Ctx 32 (BitVec 64)) :=
  ⟨sha256Init, sha256Update, fun ctx => (sha256Final ctx).1, 32, 64⟩

def sha384Mech : DigestMechInfo (Ctx 64 Bitcount) :=
  ⟨sha384Init, sha384Update, fun ctx => (sha384Final ctx).1, 48, 128⟩

def sha512Mech : DigestMechInfo (Ctx 64 Bitcount) :=
  ⟨sha512Init, sha512Update, fun ctx => (sha512Final ctx).1, 64, 128⟩

theorem length_digest {w : Nat} {κ : Type} (p : Sha w κ) (h0 : Regs w) {words : Nat}
    (hwords : words ≤ 8) (message : List UInt8) :
    (digest p h0 words message).length = words * p.wordLength := by
  have hbytes (l : List (BitVec w)) :
      (l.flatMap fun x => bigEndian p.wordLength x.toNat).length = l.length * p.wordLength := by
    simp [List.length_flatMap, List.map_const', Nat.mul_comm]
  rw [digest, hbytes, List.length_take]
  exact congrArg (· * p.wordLength) (Nat.min_eq_left hwords)

theorem streams_sha256 : Streams sha256Mech (digest sha256 sha256InitialHashValue 8) where
  pieces pieces := (sha2_pieces pieces).1
  length := length_digest _ _ (by decide)
  size := by decide
  pos := by decide

theorem streams_sha384 : Streams sha384Mech (digest sha512 sha384InitialHashValue 6) where
  pieces pieces := (sha2_pieces pieces).2.1
  length := length_digest _ _ (by decide)
  size := by decide
  pos := by decide

theorem streams_sha512 : Streams sha512Mech (digest sha512 sha512InitialHashValue 8) where
  pieces pieces := (sha2_pieces pieces).2.2
  length := length_digest _ _ (by decide)
  size := by decide
  pos := by decide

theorem digests_eq_sha256 :
    cryptoHash (some sha256Mech) true [0x61, 0x62, 0x63] =
        .ok (digest sha256 sha256InitialHashValue 8 [0x61, 0x62, 0x63]) ∧
      cryptoFhash (some sha256Mech) true true (List.replicate 64 0x20) =
        .ok (digest sha256 sha256InitialHashValue 8 (List.replicate 64 0x20)) ∧
      cryptoHmac (some sha256Mech) true [0x61, 0x62, 0x63] (List.replicate 65 0x6b) =
        .ok (hmac (digest sha256 sha256InitialHashValue 8) 64 (List.replicate 65 0x6b)
          [0x61, 0x62, 0x63]) :=
  digests_eq streams_sha256 _ _ _

end NodeMcu.Crypto.Digests
