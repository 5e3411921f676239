import NodeMcu.Lib.Endian

namespace NodeMcu.Crypto.Sha2

open NodeMcu.Lib.Memory NodeMcu.Lib.Endian

variable {w : Nat} {κ : Type}

/-! ## The three hash functions -/

/-- The words of a hash value, and of the registers. -/
structure Regs (w : Nat) where
  a : BitVec w
  b : BitVec w
  c : BitVec w
  d : BitVec w
  e : BitVec w
  f : BitVec w
  g : BitVec w
  h : BitVec w

namespace Regs

def zero : Regs w := ⟨0, 0, 0, 0, 0, 0, 0, 0⟩

def add (r s : Regs w) : Regs w :=
  ⟨r.a + s.a, r.b + s.b, r.c + s.c, r.d + s.d, r.e + s.e, r.f + s.f, r.g + s.g, r.h + s.h⟩

def words (r : Regs w) : List (BitVec w) := [r.a, r.b, r.c, r.d, r.e, r.f, r.g, r.h]

end Regs

def R (b : Nat) (x : BitVec w) : BitVec w := x >>> b

/-- `S32` and `S64`. -/
def S (b : Nat) (x : BitVec w) : BitVec w := (x >>> b) ||| (x <<< (w - b))

def Ch (x y z : BitVec w) : BitVec w := (x &&& y) ^^^ (~~~x &&& z)

def Maj (x y z : BitVec w) : BitVec w := (x &&& y) ^^^ (x &&& z) ^^^ (y &&& z)

/-- A word in the bytes of the host, which is little-endian. -/
def hostBytes (n : Nat) (x : BitVec w) : List UInt8 := (bigEndian n x.toNat).reverse

def hostWord (bs : List UInt8) : BitVec w := BitVec.ofNat w (ofBigEndian bs.reverse)

def reverse32 (x : BitVec 32) : BitVec 32 :=
  swap 8 0xff00ff00 0x00ff00ff ((x >>> 16) ||| (x <<< 16))

def reverse64 (x : BitVec 64) : BitVec 64 :=
  swap 16 0xffff0000ffff0000 0x0000ffff0000ffff
    (swap 8 0xff00ff00ff00ff00 0x00ff00ff00ff00ff ((x >>> 32) ||| (x <<< 32)))

/-- What the functions do not have in common. The bits are counted in a `κ`. -/
structure Sha (w : Nat) (κ : Type) where
  wordLength : Nat
  blockLength : Nat
  shortBlockLength : Nat
  /-- How many bytes are cleared in front of the last block where it is one more. -/
  clearLength : Nat
  reverse : BitVec w → BitVec w
  bigSigma0 : BitVec w → BitVec w
  bigSigma1 : BitVec w → BitVec w
  smallSigma0 : BitVec w → BitVec w
  smallSigma1 : BitVec w → BitVec w
  k : List (BitVec w)
  zero : κ
  add : κ → Nat → κ
  low : κ → BitVec 64
  lengthBytes : κ → List UInt8

structure Ctx (w : Nat) (κ : Type) where
  state : Regs w
  bitcount : κ
  buffer : List UInt8

section Functions

variable (p : Sha w κ)

def init (initialHashValue : Regs w) : Ctx w κ :=
  ⟨initialHashValue, p.zero, List.replicate p.blockLength 0⟩

def round (r : Regs w) (k wj : BitVec w) : Regs w :=
  let t1 := r.h + p.bigSigma1 r.e + Ch r.e r.f r.g + k + wj
  let t2 := p.bigSigma0 r.a + Maj r.a r.b r.c
  ⟨t1 + t2, r.a, r.b, r.c, r.d + t1, r.e, r.f, r.g⟩

/-- The bytes of a word of a block. -/
def wordAt (bs : List UInt8) (j : Nat) : List UInt8 :=
  (bs.drop (j * p.wordLength)).take p.wordLength

def firstStep (data : List UInt8) (s : Regs w × List (BitVec w)) (j : Nat) :
    Regs w × List (BitVec w) :=
  let wj := p.reverse (hostWord (wordAt p data j))
  (round p s.1 (p.k.getD j 0) wj, s.2.set j wj)

def nextStep (s : Regs w × List (BitVec w)) (j : Nat) : Regs w × List (BitVec w) :=
  let s0 := p.smallSigma0 (s.2.getD ((j + 1) &&& 0x0f) 0)
  let s1 := p.smallSigma1 (s.2.getD ((j + 14) &&& 0x0f) 0)
  let wj := s.2.getD (j &&& 0x0f) 0 + (s1 + s.2.getD ((j + 9) &&& 0x0f) 0 + s0)
  (round p s.1 (p.k.getD j 0) wj, s.2.set (j &&& 0x0f) wj)

/-- The hash value and the buffer, which has the words of the schedule, after a block. Where the
block is the buffer itself each word is read before its place is written. -/
def transform (state : Regs w) (buffer data : List UInt8) : Regs w × List UInt8 :=
  let first := (List.range 16).foldl (firstStep p data)
    (state, (List.range 16).map fun j => hostWord (wordAt p buffer j))
  let last := (List.range' 16 (p.k.length - 16)).foldl (nextStep p) first
  (state.add last.1, last.2.flatMap (hostBytes p.wordLength))

/-- Bytes are copied into a buffer. -/
def copy (buffer : List UInt8) (i : Nat) (bs : List UInt8) : List UInt8 :=
  buffer.take i ++ bs ++ buffer.drop (i + bs.length)

def usedspace (ctx : Ctx w κ) : Nat := (p.low ctx.bitcount >>> 3).toNat % p.blockLength

/-- The loop over whole blocks. There are fewer of them than bytes. -/
def updateBlocks : Nat → Ctx w κ → List UInt8 → Ctx w κ × List UInt8
  | 0, ctx, data => (ctx, data)
  | n + 1, ctx, data =>
    if p.blockLength ≤ data.length then
      let t := transform p ctx.state ctx.buffer data
      updateBlocks n ⟨t.1, p.add ctx.bitcount (p.blockLength <<< 3), t.2⟩ (data.drop p.blockLength)
    else (ctx, data)

def updateRest (ctx : Ctx w κ) (data : List UInt8) : Ctx w κ :=
  let (ctx, data) := updateBlocks p data.length ctx data
  if 0 < data.length then
    { ctx with
      buffer := copy ctx.buffer 0 data
      bitcount := p.add ctx.bitcount (data.length <<< 3) }
  else ctx

def update (ctx : Ctx w κ) (data : List UInt8) : Ctx w κ :=
  if data.length = 0 then ctx
  else
    let used := usedspace p ctx
    if 0 < used then
      let freespace := p.blockLength - used
      if freespace ≤ data.length then
        let buffer := copy ctx.buffer used (data.take freespace)
        let t := transform p ctx.state buffer buffer
        updateRest p ⟨t.1, p.add ctx.bitcount (freespace <<< 3), t.2⟩ (data.drop freespace)
      else
        { ctx with
          buffer := copy ctx.buffer used data
          bitcount := p.add ctx.bitcount (data.length <<< 3) }
    else updateRest p ctx data

/-- The hash value and the buffer in front of the last block. -/
def beginLast (ctx : Ctx w κ) : Regs w × List UInt8 :=
  let used := usedspace p ctx
  if 0 < used then
    let buffer := copy ctx.buffer used [0x80]
    let used := used + 1
    if used ≤ p.shortBlockLength then
      (ctx.state, copy buffer used (List.replicate (p.shortBlockLength - used) 0))
    else
      let buffer :=
        if used < p.blockLength then
          copy buffer used (List.replicate (p.blockLength - used) 0)
        else buffer
      let t := transform p ctx.state buffer buffer
      (t.1, copy t.2 0 (List.replicate p.clearLength 0))
  else (ctx.state, copy (copy ctx.buffer 0 (List.replicate p.shortBlockLength 0)) 0 [0x80])

def last (ctx : Ctx w κ) : Regs w :=
  let s := beginLast p ctx
  let buffer := copy s.2 p.shortBlockLength (p.lengthBytes ctx.bitcount)
  (transform p s.1 buffer buffer).1

/-- The digest, which has a number of words, and the cleared context. -/
def final (words : Nat) (ctx : Ctx w κ) : List UInt8 × Ctx w κ :=
  (((last p ctx).words.take words).flatMap fun x => hostBytes p.wordLength (p.reverse x),
    ⟨.zero, p.zero, List.replicate p.blockLength 0⟩)

end Functions

/-! ### SHA-256 -/

def k256 : List (BitVec 32) :=
  [ 0x428a2f98, 0x71374491, 0xb5c0fbcf, 0xe9b5dba5, 0x3956c25b, 0x59f111f1, 0x923f82a4, 0xab1c5ed5,
    0xd807aa98, 0x12835b01, 0x243185be, 0x550c7dc3, 0x72be5d74, 0x80deb1fe, 0x9bdc06a7, 0xc19bf174,
    0xe49b69c1, 0xefbe4786, 0x0fc19dc6, 0x240ca1cc, 0x2de92c6f, 0x4a7484aa, 0x5cb0a9dc, 0x76f988da,
    0x983e5152, 0xa831c66d, 0xb00327c8, 0xbf597fc7, 0xc6e00bf3, 0xd5a79147, 0x06ca6351, 0x14292967,
    0x27b70a85, 0x2e1b2138, 0x4d2c6dfc, 0x53380d13, 0x650a7354, 0x766a0abb, 0x81c2c92e, 0x92722c85,
    0xa2bfe8a1, 0xa81a664b, 0xc24b8b70, 0xc76c51a3, 0xd192e819, 0xd6990624, 0xf40e3585, 0x106aa070,
    0x19a4c116, 0x1e376c08, 0x2748774c, 0x34b0bcb5, 0x391c0cb3, 0x4ed8aa4a, 0x5b9cca4f, 0x682e6ff3,
    0x748f82ee, 0x78a5636f, 0x84c87814, 0x8cc70208, 0x90befffa, 0xa4506ceb, 0xbef9a3f7, 0xc67178f2 ]

def sha256InitialHashValue : Regs 32 :=
  ⟨0x6a09e667, 0xbb67ae85, 0x3c6ef372, 0xa54ff53a,
    0x510e527f, 0x9b05688c, 0x1f83d9ab, 0x5be0cd19⟩

def sha256 : Sha 32 (BitVec 64) where
  wordLength := 4
  blockLength := 64
  shortBlockLength := 56
  clearLength := 56
  reverse := reverse32
  bigSigma0 x := S 2 x ^^^ S 13 x ^^^ S 22 x
  bigSigma1 x := S 6 x ^^^ S 11 x ^^^ S 25 x
  smallSigma0 x := S 7 x ^^^ S 18 x ^^^ R 3 x
  smallSigma1 x := S 17 x ^^^ S 19 x ^^^ R 10 x
  k := k256
  zero := 0
  add bitcount n := bitcount + BitVec.ofNat 64 n
  low bitcount := bitcount
  lengthBytes bitcount := hostBytes 8 (reverse64 bitcount)

def sha256Init : Ctx 32 (BitVec 64) := init sha256 sha256InitialHashValue

def sha256Update (ctx : Ctx 32 (BitVec 64)) (data : List UInt8) : Ctx 32 (BitVec 64) :=
  update sha256 ctx data

def sha256Final (ctx : Ctx 32 (BitVec 64)) : List UInt8 × Ctx 32 (BitVec 64) := final sha256 8 ctx

/-! ### SHA-512 and SHA-384 -/

def k512 : List (BitVec 64) :=
  [ 0x428a2f98d728ae22, 0x7137449123ef65cd, 0xb5c0fbcfec4d3b2f, 0xe9b5dba58189dbbc,
    0x3956c25bf348b538, 0x59f111f1b605d019, 0x923f82a4af194f9b, 0xab1c5ed5da6d8118,
    0xd807aa98a3030242, 0x12835b0145706fbe, 0x243185be4ee4b28c, 0x550c7dc3d5ffb4e2,
    0x72be5d74f27b896f, 0x80deb1fe3b1696b1, 0x9bdc06a725c71235, 0xc19bf174cf692694,
    0xe49b69c19ef14ad2, 0xefbe4786384f25e3, 0x0fc19dc68b8cd5b5, 0x240ca1cc77ac9c65,
    0x2de92c6f592b0275, 0x4a7484aa6ea6e483, 0x5cb0a9dcbd41fbd4, 0x76f988da831153b5,
    0x983e5152ee66dfab, 0xa831c66d2db43210, 0xb00327c898fb213f, 0xbf597fc7beef0ee4,
    0xc6e00bf33da88fc2, 0xd5a79147930aa725, 0x06ca6351e003826f, 0x142929670a0e6e70,
    0x27b70a8546d22ffc, 0x2e1b21385c26c926, 0x4d2c6dfc5ac42aed, 0x53380d139d95b3df,
    0x650a73548baf63de, 0x766a0abb3c77b2a8, 0x81c2c92e47edaee6, 0x92722c851482353b,
    0xa2bfe8a14cf10364, 0xa81a664bbc423001, 0xc24b8b70d0f89791, 0xc76c51a30654be30,
    0xd192e819d6ef5218, 0xd69906245565a910, 0xf40e35855771202a, 0x106aa07032bbd1b8,
    0x19a4c116b8d2d0c8, 0x1e376c085141ab53, 0x2748774cdf8eeb99, 0x34b0bcb5e19b48a8,
    0x391c0cb3c5c95a63, 0x4ed8aa4ae3418acb, 0x5b9cca4f7763e373, 0x682e6ff3d6b2b8a3,
    0x748f82ee5defb2fc, 0x78a5636f43172f60, 0x84c87814a1f0ab72, 0x8cc702081a6439ec,
    0x90befffa23631e28, 0xa4506cebde82bde9, 0xbef9a3f7b2c67915, 0xc67178f2e372532b,
    0xca273eceea26619c, 0xd186b8c721c0c207, 0xeada7dd6cde0eb1e, 0xf57d4f7fee6ed178,
    0x06f067aa72176fba, 0x0a637dc5a2c898a6, 0x113f9804bef90dae, 0x1b710b35131c471b,
    0x28db77f523047d84, 0x32caab7b40c72493, 0x3c9ebe0a15c9bebc, 0x431d67c49c100d4c,
    0x4cc5d4becb3e42b6, 0x597f299cfc657e2a, 0x5fcb6fab3ad6faec, 0x6c44198c4a475817 ]

/-- The low and the high word of the number of bits. -/
abbrev Bitcount := BitVec 64 × BitVec 64

def addInc128 (bitcount : Bitcount) (n : Nat) : Bitcount :=
  let low := bitcount.1 + BitVec.ofNat 64 n
  (low, if low < BitVec.ofNat 64 n then bitcount.2 + 1 else bitcount.2)

def sha512 : Sha 64 Bitcount where
  wordLength := 8
  blockLength := 128
  shortBlockLength := 112
  clearLength := 126
  reverse := reverse64
  bigSigma0 x := S 28 x ^^^ S 34 x ^^^ S 39 x
  bigSigma1 x := S 14 x ^^^ S 18 x ^^^ S 41 x
  smallSigma0 x := S 1 x ^^^ S 8 x ^^^ R 7 x
  smallSigma1 x := S 19 x ^^^ S 61 x ^^^ R 6 x
  k := k512
  zero := (0, 0)
  add := addInc128
  low bitcount := bitcount.1
  lengthBytes bitcount := hostBytes 8 (reverse64 bitcount.2) ++ hostBytes 8 (reverse64 bitcount.1)

def sha512InitialHashValue : Regs 64 :=
  ⟨0x6a09e667f3bcc908, 0xbb67ae8584caa73b, 0x3c6ef372fe94f82b, 0xa54ff53a5f1d36f1,
    0x510e527fade682d1, 0x9b05688c2b3e6c1f, 0x1f83d9abfb41bd6b, 0x5be0cd19137e2179⟩

def sha512Init : Ctx 64 Bitcount := init sha512 sha512InitialHashValue

def sha512Update (ctx : Ctx 64 Bitcount) (data : List UInt8) : Ctx 64 Bitcount :=
  update sha512 ctx data

def sha512Final (ctx : Ctx 64 Bitcount) : List UInt8 × Ctx 64 Bitcount := final sha512 8 ctx

def sha384InitialHashValue : Regs 64 :=
  ⟨0xcbbb9d5dc1059ed8, 0x629a292a367cd507, 0x9159015a3070dd17, 0x152fecd8f70e5939,
    0x67332667ffc00b31, 0x8eb44a8768581511, 0xdb0c2e0d64f98fa7, 0x47b5481dbefa4fa4⟩

def sha384Init : Ctx 64 Bitcount := init sha512 sha384InitialHashValue

def sha384Update (ctx : Ctx 64 Bitcount) (data : List UInt8) : Ctx 64 Bitcount :=
  sha512Update ctx data

def sha384Final (ctx : Ctx 64 Bitcount) : List UInt8 × Ctx 64 Bitcount := final sha512 6 ctx

end NodeMcu.Crypto.Sha2
