import Arcxa.Lib.Codec

/-!
# SHA-256

The hash function of FIPS 180-4 on byte lists. Results about programs that hash take the
hash function as a parameter; this one is for their instances. Words are naturals below
`2 ^ 32`.
-/

namespace Arcxa.Sha256

def roundConstants : List Nat :=
  [0x428a2f98, 0x71374491, 0xb5c0fbcf, 0xe9b5dba5, 0x3956c25b, 0x59f111f1, 0x923f82a4, 0xab1c5ed5,
   0xd807aa98, 0x12835b01, 0x243185be, 0x550c7dc3, 0x72be5d74, 0x80deb1fe, 0x9bdc06a7, 0xc19bf174,
   0xe49b69c1, 0xefbe4786, 0x0fc19dc6, 0x240ca1cc, 0x2de92c6f, 0x4a7484aa, 0x5cb0a9dc, 0x76f988da,
   0x983e5152, 0xa831c66d, 0xb00327c8, 0xbf597fc7, 0xc6e00bf3, 0xd5a79147, 0x06ca6351, 0x14292967,
   0x27b70a85, 0x2e1b2138, 0x4d2c6dfc, 0x53380d13, 0x650a7354, 0x766a0abb, 0x81c2c92e, 0x92722c85,
   0xa2bfe8a1, 0xa81a664b, 0xc24b8b70, 0xc76c51a3, 0xd192e819, 0xd6990624, 0xf40e3585, 0x106aa070,
   0x19a4c116, 0x1e376c08, 0x2748774c, 0x34b0bcb5, 0x391c0cb3, 0x4ed8aa4a, 0x5b9cca4f, 0x682e6ff3,
   0x748f82ee, 0x78a5636f, 0x84c87814, 0x8cc70208, 0x90befffa, 0xa4506ceb, 0xbef9a3f7, 0xc67178f2]

/-- The eight working words. -/
structure Words where
  a : Nat
  b : Nat
  c : Nat
  d : Nat
  e : Nat
  f : Nat
  g : Nat
  h : Nat

def Words.initial : Words :=
  ⟨0x6a09e667, 0xbb67ae85, 0x3c6ef372, 0xa54ff53a, 0x510e527f, 0x9b05688c, 0x1f83d9ab, 0x5be0cd19⟩

def rotr (x n : Nat) : Nat := x >>> n ||| (x <<< (32 - n)) % 2 ^ 32

def round (s : Words) (kw : Nat) : Words :=
  let s1 := rotr s.e 6 ^^^ rotr s.e 11 ^^^ rotr s.e 25
  let ch := (s.e &&& s.f) ^^^ ((s.e ^^^ 0xFFFFFFFF) &&& s.g)
  let t1 := s.h + s1 + ch + kw
  let s0 := rotr s.a 2 ^^^ rotr s.a 13 ^^^ rotr s.a 22
  let maj := (s.a &&& s.b) ^^^ (s.a &&& s.c) ^^^ (s.b &&& s.c)
  ⟨(t1 + s0 + maj) % 2 ^ 32, s.a, s.b, s.c, (s.d + t1) % 2 ^ 32, s.e, s.f, s.g⟩

def rounds : List Nat → List Nat → Words → Words
  | k :: ks, w :: window, s =>
    let w1 := window.getD 0 0
    let w9 := window.getD 8 0
    let w14 := window.getD 13 0
    let s0 := rotr w1 7 ^^^ rotr w1 18 ^^^ (w1 >>> 3)
    let s1 := rotr w14 17 ^^^ rotr w14 19 ^^^ (w14 >>> 10)
    rounds ks (window ++ [(w + s0 + w9 + s1) % 2 ^ 32]) (round s (k + w))
  | _, _, s => s

def Words.add (s t : Words) : Words :=
  ⟨(s.a + t.a) % 2 ^ 32, (s.b + t.b) % 2 ^ 32, (s.c + t.c) % 2 ^ 32, (s.d + t.d) % 2 ^ 32,
    (s.e + t.e) % 2 ^ 32, (s.f + t.f) % 2 ^ 32, (s.g + t.g) % 2 ^ 32, (s.h + t.h) % 2 ^ 32⟩

def blockWords : Bytes → List Nat
  | b0 :: b1 :: b2 :: b3 :: rest =>
    (((b0.toNat * 256 + b1.toNat) * 256 + b2.toNat) * 256 + b3.toNat) :: blockWords rest
  | _ => []

def compress (s : Words) (block : Bytes) : Words :=
  s.add (rounds roundConstants (blockWords block) s)

/-- The first `n` blocks. -/
def compressBlocks : Nat → Words → Bytes → Words
  | 0, s, _ => s
  | n + 1, s, bytes => compressBlocks n (compress s (bytes.take 64)) (bytes.drop 64)

def padded (message : Bytes) : Bytes :=
  message ++ 0x80 :: List.replicate ((119 - message.length % 64) % 64) 0 ++
    (Codec.leBytes 8 (8 * message.length)).reverse

def wordBytes (w : Nat) : Bytes :=
  [UInt8.ofNat (w >>> 24), UInt8.ofNat (w >>> 16), UInt8.ofNat (w >>> 8), UInt8.ofNat w]

def Words.toBytes (s : Words) : Bytes :=
  wordBytes s.a ++ wordBytes s.b ++ wordBytes s.c ++ wordBytes s.d ++
    wordBytes s.e ++ wordBytes s.f ++ wordBytes s.g ++ wordBytes s.h

def digest (message : Bytes) : Bytes :=
  (compressBlocks ((padded message).length / 64) Words.initial (padded message)).toBytes

theorem length_digest (message : Bytes) : (digest message).length = 32 := rfl

end Arcxa.Sha256
