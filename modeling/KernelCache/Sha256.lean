/-
# KernelCache.Sha256 — the streaming SHA-256 object (`src/sha256.cpp`).

The object is the source's: eight working words, the bit count of the blocks processed so far, and
the bytes waiting in `buffer_` (the list below holds the first `buffer_used_` of its 64 bytes).
`update` feeds bytes one at a time and processes a block whenever 64 are waiting; `finish` pads,
processes the last block or two and resets the object.

Every identity of the cache is derived from `Sha256.digest`: the key digest, the low word of an
artifact id, the checksums of the persistent store.  The definitions below evaluate in the kernel,
and nothing outside this module unfolds them: `digest` is irreducible to the elaborator.
-/
import KernelCache.Foundation.Wire

namespace KernelCache

open Foundation (Bytes)

/-- `std::array<std::uint8_t, 32>`. -/
structure Sha256Digest where
  bytes : Bytes
  size_eq : bytes.length = 32
  deriving DecidableEq

namespace Sha256Digest

/-- The value-initialised digest of a key that was never finalized. -/
def zero : Sha256Digest := ⟨List.replicate 32 0, by decide⟩

/-- Eight bytes from position `i`, most significant first: `w = (w << 8) | d[i + j]`. -/
def word (d : Sha256Digest) (i : Nat) : UInt64 :=
  UInt64.ofNat (Foundation.beNat 0 ((d.bytes.drop i).take 8))

end Sha256Digest

/-- `kK`. -/
def sha256K : List UInt32 := [
  0x428a2f98, 0x71374491, 0xb5c0fbcf, 0xe9b5dba5, 0x3956c25b, 0x59f111f1,
  0x923f82a4, 0xab1c5ed5, 0xd807aa98, 0x12835b01, 0x243185be, 0x550c7dc3,
  0x72be5d74, 0x80deb1fe, 0x9bdc06a7, 0xc19bf174, 0xe49b69c1, 0xefbe4786,
  0x0fc19dc6, 0x240ca1cc, 0x2de92c6f, 0x4a7484aa, 0x5cb0a9dc, 0x76f988da,
  0x983e5152, 0xa831c66d, 0xb00327c8, 0xbf597fc7, 0xc6e00bf3, 0xd5a79147,
  0x06ca6351, 0x14292967, 0x27b70a85, 0x2e1b2138, 0x4d2c6dfc, 0x53380d13,
  0x650a7354, 0x766a0abb, 0x81c2c92e, 0x92722c85, 0xa2bfe8a1, 0xa81a664b,
  0xc24b8b70, 0xc76c51a3, 0xd192e819, 0xd6990624, 0xf40e3585, 0x106aa070,
  0x19a4c116, 0x1e376c08, 0x2748774c, 0x34b0bcb5, 0x391c0cb3, 0x4ed8aa4a,
  0x5b9cca4f, 0x682e6ff3, 0x748f82ee, 0x78a5636f, 0x84c87814, 0x8cc70208,
  0x90befffa, 0xa4506ceb, 0xbef9a3f7, 0xc67178f2]

def rotr (x n : UInt32) : UInt32 := (x >>> n) ||| (x <<< (32 - n))

/-- The eight words `state_[0..7]`, also the working variables `a..h`. -/
structure Sha256Words where
  a : UInt32
  b : UInt32
  c : UInt32
  d : UInt32
  e : UInt32
  f : UInt32
  g : UInt32
  h : UInt32

namespace Sha256Words

/-- The initial words set by `reset`. -/
def initial : Sha256Words where
  a := 0x6a09e667
  b := 0xbb67ae85
  c := 0x3c6ef372
  d := 0xa54ff53a
  e := 0x510e527f
  f := 0x9b05688c
  g := 0x1f83d9ab
  h := 0x5be0cd19

/-- One of the 64 rounds, with constant `k` and schedule word `w`. -/
def round (r : Sha256Words) (k w : UInt32) : Sha256Words :=
  let s1 := rotr r.e 6 ^^^ rotr r.e 11 ^^^ rotr r.e 25
  let ch := (r.e &&& r.f) ^^^ (~~~r.e &&& r.g)
  let t1 := r.h + s1 + ch + k + w
  let s0 := rotr r.a 2 ^^^ rotr r.a 13 ^^^ rotr r.a 22
  let maj := (r.a &&& r.b) ^^^ (r.a &&& r.c) ^^^ (r.b &&& r.c)
  let t2 := s0 + maj
  { a := t1 + t2, b := r.a, c := r.b, d := r.c, e := r.d + t1, f := r.e, g := r.f, h := r.g }

def rounds : List UInt32 → List UInt32 → Sha256Words → Sha256Words
  | k :: ks, w :: ws, r => rounds ks ws (round r k w)
  | _, _, r => r

def add (x y : Sha256Words) : Sha256Words where
  a := x.a + y.a
  b := x.b + y.b
  c := x.c + y.c
  d := x.d + y.d
  e := x.e + y.e
  f := x.f + y.f
  g := x.g + y.g
  h := x.h + y.h

def toList (x : Sha256Words) : List UInt32 := [x.a, x.b, x.c, x.d, x.e, x.f, x.g, x.h]

end Sha256Words

/-- `w[i] = block[4i] << 24 | block[4i+1] << 16 | block[4i+2] << 8 | block[4i+3]`. -/
def beWord : Bytes → UInt32
  | [a, b, c, d] =>
    (a.toUInt32 <<< 24) ||| (b.toUInt32 <<< 16) ||| (c.toUInt32 <<< 8) ||| d.toUInt32
  | _ => 0

/-- The first `n` schedule words, read off the block. -/
def scheduleBlock : Nat → Bytes → List UInt32
  | 0, _ => []
  | n + 1, block => beWord (block.take 4) :: scheduleBlock n (block.drop 4)

/-- Extend the schedule by `n` words.  The list holds the words so far with the latest first, so
`w[i - 16]`, `w[i - 15]`, `w[i - 7]` and `w[i - 2]` are its entries 15, 14, 6 and 1. -/
def scheduleExtend : Nat → List UInt32 → List UInt32
  | 0, w => w
  | n + 1, w =>
    let w15 := w.getD 14 0
    let w2 := w.getD 1 0
    let s0 := rotr w15 7 ^^^ rotr w15 18 ^^^ (w15 >>> 3)
    let s1 := rotr w2 17 ^^^ rotr w2 19 ^^^ (w2 >>> 10)
    scheduleExtend n ((w.getD 15 0 + s0 + w.getD 6 0 + s1) :: w)

structure Sha256 where
  state : Sha256Words
  bitCount : UInt64
  buffer : Bytes

namespace Sha256

def reset : Sha256 where
  state := Sha256Words.initial
  bitCount := 0
  buffer := []

/-- `process_block(buffer_)`, leaving `buffer_` to the caller. -/
def processBlock (s : Sha256) (block : Bytes) : Sha256 :=
  let w := (scheduleExtend 48 (scheduleBlock 16 block).reverse).reverse
  { s with
    state := s.state.add (Sha256Words.rounds sha256K w s.state)
    bitCount := s.bitCount + 512 }

def updateByte (s : Sha256) (byte : UInt8) : Sha256 :=
  let buffer := s.buffer ++ [byte]
  if buffer.length = 64 then { s.processBlock buffer with buffer := [] }
  else { s with buffer := buffer }

def update (s : Sha256) (data : Bytes) : Sha256 := data.foldl updateByte s

/-- The zero padding loop `while (buffer_used_ != 56)`; 64 rounds of it always suffice. -/
def padZeros : Nat → Sha256 → Sha256
  | 0, s => s
  | n + 1, s => if s.buffer.length = 56 then s else padZeros n (s.updateByte 0x00)

/-- The digest bytes of the eight words, most significant byte first. -/
def output (x : Sha256Words) : Sha256Digest where
  bytes := x.toList.flatMap fun (w : UInt32) =>
    [(w >>> 24).toUInt8, (w >>> 16).toUInt8, (w >>> 8).toUInt8, w.toUInt8]
  size_eq := by simp [Sha256Words.toList]

def finish (s : Sha256) : Sha256Digest × Sha256 :=
  let totalBits := s.bitCount + UInt64.ofNat s.buffer.length * 8
  let padded := padZeros 64 (s.updateByte 0x80)
  let last := padded.update (Foundation.beBytes 8 totalBits.toNat)
  (output last.state, reset)

@[irreducible] def digest (data : Bytes) : Sha256Digest := (reset.update data).finish.1

end Sha256

/-- Lower-case hexadecimal, two digits a byte. -/
def hexDigit (n : UInt8) : UInt8 := if n < 10 then 48 + n else 87 + n

def toHex (d : Sha256Digest) : Bytes :=
  d.bytes.flatMap fun (b : UInt8) => [hexDigit (b >>> 4), hexDigit (b &&& 0x0f)]

set_option maxRecDepth 4096 in
-- The published digest of "abc".
example : (Sha256.digest [0x61, 0x62, 0x63]).word 0 = 0xba7816bf8f01cfea := by decide +kernel

end KernelCache
