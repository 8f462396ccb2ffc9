import Caprock.Lib.Bytes

/-! # SHA-256

The hash of the driver verifier, block by block as it is computed: whole blocks first, then the
rest of the data with its padding in one block or in two.
-/

namespace Caprock.Lxpd

open Bytes

def shaK : List UInt32 :=
  [0x428a2f98, 0x71374491, 0xb5c0fbcf, 0xe9b5dba5, 0x3956c25b, 0x59f111f1, 0x923f82a4, 0xab1c5ed5,
    0xd807aa98, 0x12835b01, 0x243185be, 0x550c7dc3, 0x72be5d74, 0x80deb1fe, 0x9bdc06a7, 0xc19bf174,
    0xe49b69c1, 0xefbe4786, 0x0fc19dc6, 0x240ca1cc, 0x2de92c6f, 0x4a7484aa, 0x5cb0a9dc, 0x76f988da,
    0x983e5152, 0xa831c66d, 0xb00327c8, 0xbf597fc7, 0xc6e00bf3, 0xd5a79147, 0x06ca6351, 0x14292967,
    0x27b70a85, 0x2e1b2138, 0x4d2c6dfc, 0x53380d13, 0x650a7354, 0x766a0abb, 0x81c2c92e, 0x92722c85,
    0xa2bfe8a1, 0xa81a664b, 0xc24b8b70, 0xc76c51a3, 0xd192e819, 0xd6990624, 0xf40e3585, 0x106aa070,
    0x19a4c116, 0x1e376c08, 0x2748774c, 0x34b0bcb5, 0x391c0cb3, 0x4ed8aa4a, 0x5b9cca4f, 0x682e6ff3,
    0x748f82ee, 0x78a5636f, 0x84c87814, 0x8cc70208, 0x90befffa, 0xa4506ceb, 0xbef9a3f7, 0xc67178f2]

structure ShaState where
  a : UInt32
  b : UInt32
  c : UInt32
  d : UInt32
  e : UInt32
  f : UInt32
  g : UInt32
  h : UInt32
  deriving DecidableEq, Repr

def rotateRight (x n : UInt32) : UInt32 := x >>> n ||| x <<< (32 - n)

def fromBeBytes (b : List UInt8) : UInt32 := UInt32.ofNat (leNat b.reverse)

def toBeBytes (w n : Nat) : List UInt8 := (leBytes w n).reverse

def shaWoerter (block : List UInt8) : List UInt32 :=
  (List.range 16).map fun i => fromBeBytes ((block.drop (4 * i)).take 4)

def shaPlan : Nat → List UInt32 → List UInt32
  | 0, w => w
  | n + 1, w =>
      let i := w.length
      let x := w.getD (i - 15) 0
      let y := w.getD (i - 2) 0
      let s0 := rotateRight x 7 ^^^ rotateRight x 18 ^^^ (x >>> 3)
      let s1 := rotateRight y 17 ^^^ rotateRight y 19 ^^^ (y >>> 10)
      shaPlan n (w ++ [w.getD (i - 16) 0 + s0 + w.getD (i - 7) 0 + s1])

/-- One round, with its constant and its word of the schedule. -/
def shaRunde (s : ShaState) (k w : UInt32) : ShaState :=
  let s1 := rotateRight s.e 6 ^^^ rotateRight s.e 11 ^^^ rotateRight s.e 25
  let ch := (s.e &&& s.f) ^^^ (~~~s.e &&& s.g)
  let t1 := s.h + s1 + ch + k + w
  let s0 := rotateRight s.a 2 ^^^ rotateRight s.a 13 ^^^ rotateRight s.a 22
  let maj := (s.a &&& s.b) ^^^ (s.a &&& s.c) ^^^ (s.b &&& s.c)
  let t2 := s0 + maj
  ⟨t1 + t2, s.a, s.b, s.c, s.d + t1, s.e, s.f, s.g⟩

def shaCompress (h : ShaState) (block : List UInt8) : ShaState :=
  let s := (shaK.zip (shaPlan 48 (shaWoerter block))).foldl (fun s x => shaRunde s x.1 x.2) h
  ⟨h.a + s.a, h.b + s.b, h.c + s.c, h.d + s.d, h.e + s.e, h.f + s.f, h.g + s.g, h.h + s.h⟩

def shaStart : ShaState :=
  ⟨0x6a09e667, 0xbb67ae85, 0x3c6ef372, 0xa54ff53a, 0x510e527f, 0x9b05688c, 0x1f83d9ab, 0x5be0cd19⟩

def shaBloecke : Nat → ShaState → List UInt8 → ShaState
  | 0, h, _ => h
  | n + 1, h, data => shaBloecke n (shaCompress h (data.take 64)) (data.drop 64)

def shaTail (rest : List UInt8) (bitlen : Nat) : List UInt8 :=
  let padlen := if rest.length < 56 then 64 else 128
  rest ++ 0x80 :: List.replicate (padlen - 8 - rest.length - 1) 0 ++ toBeBytes 8 bitlen

def ShaState.bytes (s : ShaState) : List UInt8 :=
  [s.a, s.b, s.c, s.d, s.e, s.f, s.g, s.h].flatMap fun x => toBeBytes 4 x.toNat

def sha256 (data : List UInt8) : List UInt8 :=
  let n := data.length / 64
  let tail := shaTail (data.drop (64 * n)) (data.length * 8 % 2 ^ 64)
  (shaBloecke (tail.length / 64) (shaBloecke n shaStart data) tail).bytes

end Caprock.Lxpd
