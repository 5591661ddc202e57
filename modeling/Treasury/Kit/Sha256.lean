import Mathlib.Algebra.Group.Nat.Defs
import Treasury.Kit.Bytes

/-! SHA-256 on words kept as natural numbers below `2^32`. The
message schedule is a window of sixteen words that moves with the rounds. -/
namespace Kit.Sha256

def roundConstants : List Nat := [
  0x428a2f98, 0x71374491, 0xb5c0fbcf, 0xe9b5dba5, 0x3956c25b, 0x59f111f1, 0x923f82a4, 0xab1c5ed5,
  0xd807aa98, 0x12835b01, 0x243185be, 0x550c7dc3, 0x72be5d74, 0x80deb1fe, 0x9bdc06a7, 0xc19bf174,
  0xe49b69c1, 0xefbe4786, 0x0fc19dc6, 0x240ca1cc, 0x2de92c6f, 0x4a7484aa, 0x5cb0a9dc, 0x76f988da,
  0x983e5152, 0xa831c66d, 0xb00327c8, 0xbf597fc7, 0xc6e00bf3, 0xd5a79147, 0x06ca6351, 0x14292967,
  0x27b70a85, 0x2e1b2138, 0x4d2c6dfc, 0x53380d13, 0x650a7354, 0x766a0abb, 0x81c2c92e, 0x92722c85,
  0xa2bfe8a1, 0xa81a664b, 0xc24b8b70, 0xc76c51a3, 0xd192e819, 0xd6990624, 0xf40e3585, 0x106aa070,
  0x19a4c116, 0x1e376c08, 0x2748774c, 0x34b0bcb5, 0x391c0cb3, 0x4ed8aa4a, 0x5b9cca4f, 0x682e6ff3,
  0x748f82ee, 0x78a5636f, 0x84c87814, 0x8cc70208, 0x90befffa, 0xa4506ceb, 0xbef9a3f7, 0xc67178f2]

def word : Nat := 4294967296

def rotr (x n : Nat) : Nat := (x >>> n) ||| ((x <<< (32 - n)) % word)

def smallSigma0 (x : Nat) : Nat := rotr x 7 ^^^ rotr x 18 ^^^ (x >>> 3)
def smallSigma1 (x : Nat) : Nat := rotr x 17 ^^^ rotr x 19 ^^^ (x >>> 10)
def bigSigma0 (x : Nat) : Nat := rotr x 2 ^^^ rotr x 13 ^^^ rotr x 22
def bigSigma1 (x : Nat) : Nat := rotr x 6 ^^^ rotr x 11 ^^^ rotr x 25
def choose (x y z : Nat) : Nat := (x &&& y) ^^^ ((x ^^^ 4294967295) &&& z)
def majority (x y z : Nat) : Nat := (x &&& y) ^^^ (x &&& z) ^^^ (y &&& z)

structure State where
  a : Nat
  b : Nat
  c : Nat
  d : Nat
  e : Nat
  f : Nat
  g : Nat
  h : Nat

def initial : State :=
  ⟨0x6a09e667, 0xbb67ae85, 0x3c6ef372, 0xa54ff53a, 0x510e527f, 0x9b05688c, 0x1f83d9ab, 0x5be0cd19⟩

def rounds : List Nat → List Nat → State → State
  | [], _, s => s
  | k :: ks, [w0, w1, w2, w3, w4, w5, w6, w7, w8, w9, w10, w11, w12, w13, w14, w15], s =>
    let t1 := (s.h + bigSigma1 s.e + choose s.e s.f s.g + k + w0) % word
    let t2 := (bigSigma0 s.a + majority s.a s.b s.c) % word
    let next := (smallSigma1 w14 + w9 + smallSigma0 w1 + w0) % word
    rounds ks [w1, w2, w3, w4, w5, w6, w7, w8, w9, w10, w11, w12, w13, w14, w15, next]
      ⟨(t1 + t2) % word, s.a, s.b, s.c, (s.d + t1) % word, s.e, s.f, s.g⟩
  | _, _, s => s

def State.add (s t : State) : State :=
  ⟨(s.a + t.a) % word, (s.b + t.b) % word, (s.c + t.c) % word, (s.d + t.d) % word,
    (s.e + t.e) % word, (s.f + t.f) % word, (s.g + t.g) % word, (s.h + t.h) % word⟩

def words : Nat → Bytes → List Nat
  | n + 1, a :: b :: c :: d :: rest =>
    (a.toNat * 16777216 + b.toNat * 65536 + c.toNat * 256 + d.toNat) :: words n rest
  | _, _ => []

def blocks : Nat → Bytes → State → State
  | 0, _, s => s
  | n + 1, message, s =>
    blocks n (message.drop 64) (s.add (rounds roundConstants (words 16 message) s))

def bigEndian (n : Nat) : Nat → Bytes
  | 0 => []
  | k + 1 => UInt8.ofNat (n / 256 ^ k % 256) :: bigEndian n k

def pad (message : Bytes) : Bytes :=
  message ++ 128 :: List.replicate ((119 - message.length % 64) % 64) 0 ++
    bigEndian (8 * message.length) 8

def digest (message : Bytes) : Bytes :=
  let padded := pad message
  let s := blocks (padded.length / 64) padded initial
  [s.a, s.b, s.c, s.d, s.e, s.f, s.g, s.h].flatMap (bigEndian · 4)

theorem digest_length (message : Bytes) : (digest message).length = 32 := by
  simp [digest, bigEndian]

set_option maxRecDepth 4000 in
example : hexEncode (digest (utf8 "abc")) =
    "ba7816bf8f01cfea414140de5dae2223b00361a396177a9cb410ff61f20015ad" := by decide +kernel

end Kit.Sha256
