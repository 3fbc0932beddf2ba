import Arcxa.Lib.Codec

/-!
# SipHash

SipHash-c-d with a 128-bit key, on byte lists: `c` rounds for each word of the message, `d` rounds
at the end. With one and three rounds and the key 0 it is the default hasher of the Rust standard
library.
-/

namespace Arcxa.SipHash

structure State where
  v0 : UInt64
  v1 : UInt64
  v2 : UInt64
  v3 : UInt64

def rotl (x : UInt64) (n : UInt64) : UInt64 := (x <<< n) ||| (x >>> (64 - n))

def initial (k0 k1 : UInt64) : State :=
  ⟨k0 ^^^ 0x736f6d6570736575, k1 ^^^ 0x646f72616e646f6d, k0 ^^^ 0x6c7967656e657261,
    k1 ^^^ 0x7465646279746573⟩

def round (s : State) : State :=
  let v0 := s.v0 + s.v1
  let v1 := rotl s.v1 13 ^^^ v0
  let v0 := rotl v0 32
  let v2 := s.v2 + s.v3
  let v3 := rotl s.v3 16 ^^^ v2
  let v0 := v0 + v3
  let v3 := rotl v3 21 ^^^ v0
  let v2 := v2 + v1
  let v1 := rotl v1 17 ^^^ v2
  let v2 := rotl v2 32
  ⟨v0, v1, v2, v3⟩

def rounds : Nat → State → State
  | 0, s => s
  | n + 1, s => rounds n (round s)

def absorb (c : Nat) (s : State) (word : UInt64) : State :=
  let s := rounds c { s with v3 := s.v3 ^^^ word }
  { s with v0 := s.v0 ^^^ word }

def words (length : Nat) : Bytes → List UInt64
  | b0 :: b1 :: b2 :: b3 :: b4 :: b5 :: b6 :: b7 :: rest =>
    UInt64.ofNat (Nat.ofDigits 256 ([b0, b1, b2, b3, b4, b5, b6, b7].map UInt8.toNat)) ::
      words length rest
  | rest =>
    [UInt64.ofNat (Nat.ofDigits 256 (rest.map UInt8.toNat) + (length % 256) * 256 ^ 7)]

def hash (c d : Nat) (k0 k1 : UInt64) (message : Bytes) : UInt64 :=
  let s := (words message.length message).foldl (absorb c) (initial k0 k1)
  let s := rounds d { s with v2 := s.v2 ^^^ 0xff }
  s.v0 ^^^ s.v1 ^^^ s.v2 ^^^ s.v3

example : hash 2 4 0x0706050403020100 0x0f0e0d0c0b0a0908
    [0, 1, 2, 3, 4, 5, 6, 7, 8, 9, 10, 11, 12, 13, 14] = 0xa129ca6149be45e5 := by decide +kernel

example : hash 1 3 0 0 [] = 0xd1fba762150c532c := by decide +kernel

end Arcxa.SipHash
