import RepoAudit.Digest.Bytes

/-!
# XXH3 with 64 bits

A fast digest without a seed. Short messages are mixed in one step each by length; long ones go
through eight lanes, stripe by stripe.
-/

namespace RepoAudit.Digest.Xxh3

/-- The bytes that messages are mixed with. -/
def secret : List UInt8 :=
  [0xb8, 0xfe, 0x6c, 0x39, 0x23, 0xa4, 0x4b, 0xbe, 0x7c, 0x01, 0x81, 0x2c,
   0xf7, 0x21, 0xad, 0x1c, 0xde, 0xd4, 0x6d, 0xe9, 0x83, 0x90, 0x97, 0xdb,
   0x72, 0x40, 0xa4, 0xa4, 0xb7, 0xb3, 0x67, 0x1f, 0xcb, 0x79, 0xe6, 0x4e,
   0xcc, 0xc0, 0xe5, 0x78, 0x82, 0x5a, 0xd0, 0x7d, 0xcc, 0xff, 0x72, 0x21,
   0xb8, 0x08, 0x46, 0x74, 0xf7, 0x43, 0x24, 0x8e, 0xe0, 0x35, 0x90, 0xe6,
   0x81, 0x3a, 0x26, 0x4c, 0x3c, 0x28, 0x52, 0xbb, 0x91, 0xc3, 0x00, 0xcb,
   0x88, 0xd0, 0x65, 0x8b, 0x1b, 0x53, 0x2e, 0xa3, 0x71, 0x64, 0x48, 0x97,
   0xa2, 0x0d, 0xf9, 0x4e, 0x38, 0x19, 0xef, 0x46, 0xa9, 0xde, 0xac, 0xd8,
   0xa8, 0xfa, 0x76, 0x3f, 0xe3, 0x9c, 0x34, 0x3f, 0xf9, 0xdc, 0xbb, 0xc7,
   0xc7, 0x0b, 0x4f, 0x1d, 0x8a, 0x51, 0xe0, 0x4b, 0xcd, 0xb4, 0x59, 0x31,
   0xc8, 0x9f, 0x7e, 0xc9, 0xd9, 0x78, 0x73, 0x64, 0xea, 0xc5, 0xac, 0x83,
   0x34, 0xd3, 0xeb, 0xc3, 0xc5, 0x81, 0xa0, 0xff, 0xfa, 0x13, 0x63, 0xeb,
   0x17, 0x0d, 0xdd, 0x51, 0xb7, 0xf0, 0xda, 0x49, 0xd3, 0x16, 0x55, 0x26,
   0x29, 0xd4, 0x68, 0x9e, 0x2b, 0x16, 0xbe, 0x58, 0x7d, 0x47, 0xa1, 0xfc,
   0x8f, 0xf8, 0xb8, 0xd1, 0x7a, 0xd0, 0x31, 0xce, 0x45, 0xcb, 0x3a, 0x8f,
   0x95, 0x16, 0x04, 0x28, 0xaf, 0xd7, 0xfb, 0xca, 0xbb, 0x4b, 0x40, 0x7e]

def prime32a : UInt64 := 0x9E3779B1
def prime32b : UInt64 := 0x85EBCA77
def prime32c : UInt64 := 0xC2B2AE3D
def prime64a : UInt64 := 0x9E3779B185EBCA87
def prime64b : UInt64 := 0xC2B2AE3D27D4EB4F
def prime64c : UInt64 := 0x165667B19E3779F9
def prime64d : UInt64 := 0x85EBCA77C2B2AE63
def prime64e : UInt64 := 0x27D4EB2F165667C5

/-! ### Words -/

/-- The word of four bytes at a place. -/
def word32 (bs : List UInt8) (at' : Nat) : UInt64 :=
  UInt64.ofNat (littleEndian ((bs.drop at').take 4))

/-- The word of eight bytes at a place. -/
def word64 (bs : List UInt8) (at' : Nat) : UInt64 :=
  UInt64.ofNat (littleEndian ((bs.drop at').take 8))

def rotateLeft (x n : UInt64) : UInt64 := (x <<< n) ||| (x >>> (64 - n))

/-- The bytes of a word in reverse order. -/
def swapBytes (x : UInt64) : UInt64 :=
  UInt64.ofNat (littleEndian (bigEndianBytes 8 x.toNat))

/-- The two halves of a product, combined. -/
def foldedProduct (x y : UInt64) : UInt64 :=
  let p := x.toNat * y.toNat
  UInt64.ofNat p ^^^ UInt64.ofNat (p / Nat.pow 2 64)

/-! ### Final mixing -/

def avalanche (h : UInt64) : UInt64 :=
  let h := h ^^^ (h >>> 37)
  let h := h * 0x165667919E3779F9
  h ^^^ (h >>> 32)

/-- The stronger mixing, for very short messages. -/
def strongAvalanche (h : UInt64) : UInt64 :=
  let h := (h ^^^ (h >>> 33)) * prime64b
  let h := (h ^^^ (h >>> 29)) * prime64c
  h ^^^ (h >>> 32)

/-! ### Messages of at most 240 bytes -/

/-- One to three bytes. -/
def upTo3 (bs : List UInt8) : UInt64 :=
  let n := bs.length
  let byte (i : Nat) : UInt64 := (bs.getD i 0).toUInt64
  let combined := (byte 0 <<< 16) ||| (byte (n / 2) <<< 24) ||| byte (n - 1) |||
    (UInt64.ofNat n <<< 8)
  strongAvalanche (combined ^^^ (word32 secret 0 ^^^ word32 secret 4))

/-- Four to eight bytes. -/
def upTo8 (bs : List UInt8) : UInt64 :=
  let n := bs.length
  let flip := word64 secret 8 ^^^ word64 secret 16
  let h := (word32 bs (n - 4) + (word32 bs 0 <<< 32)) ^^^ flip
  let h := (h ^^^ rotateLeft h 49 ^^^ rotateLeft h 24) * 0x9FB21C651E98DF25
  let h := (h ^^^ ((h >>> 35) + UInt64.ofNat n)) * 0x9FB21C651E98DF25
  h ^^^ (h >>> 28)

/-- Nine to sixteen bytes. -/
def upTo16 (bs : List UInt8) : UInt64 :=
  let n := bs.length
  let low := word64 bs 0 ^^^ (word64 secret 24 ^^^ word64 secret 32)
  let high := word64 bs (n - 8) ^^^ (word64 secret 40 ^^^ word64 secret 48)
  avalanche (UInt64.ofNat n + swapBytes low + high + foldedProduct low high)

/-- Mixes the sixteen bytes at `at'` with those of the secret at `key`. -/
def mix16 (bs : List UInt8) (at' key : Nat) : UInt64 :=
  foldedProduct (word64 bs at' ^^^ word64 secret key) (word64 bs (at' + 8) ^^^ word64 secret (key + 8))

/-- Seventeen to 128 bytes, from both ends towards the middle. -/
def upTo128 (bs : List UInt8) : UInt64 :=
  let n := bs.length
  let pairs := (n - 1) / 32 + 1
  avalanche ((List.range pairs).foldl (fun acc i =>
    acc + mix16 bs (16 * i) (32 * i) + mix16 bs (n - 16 * (i + 1)) (32 * i + 16))
    (UInt64.ofNat n * prime64a))

/-- Up to 240 bytes. -/
def upTo240 (bs : List UInt8) : UInt64 :=
  let n := bs.length
  let first := (List.range 8).foldl (fun acc i => acc + mix16 bs (16 * i) (16 * i))
    (UInt64.ofNat n * prime64a)
  let rest := (List.range (n / 16 - 8)).foldl
    (fun acc i => acc + mix16 bs (16 * (i + 8)) (16 * i + 3)) (avalanche first)
  avalanche (rest + mix16 bs (n - 16) 119)

/-! ### Long messages -/

/-- The words of a stripe. -/
def words (bs : List UInt8) : List UInt64 := (List.range 8).map fun i => word64 bs (8 * i)

/-- Exchanges the members of each pair. -/
def swapPairs : List UInt64 → List UInt64
  | x :: y :: rest => y :: x :: swapPairs rest
  | xs => xs

/-- Mixes a stripe of 64 bytes into the lanes, with the secret at `key`. -/
def accumulate (lanes : List UInt64) (stripe : List UInt8) (key : Nat) : List UInt64 :=
  let data := words stripe
  let keyed := data.zipWith (fun (x y : UInt64) => x ^^^ y) (words (secret.drop key))
  let products := keyed.map fun (k : UInt64) => (k &&& (0xFFFFFFFF : UInt64)) * (k >>> (32 : UInt64))
  (lanes.zipWith (· + ·) (swapPairs data)).zipWith (· + ·) products

/-- Mixes the lanes at the end of a block. -/
def scramble (lanes : List UInt64) : List UInt64 :=
  lanes.zipWith (fun (lane key : UInt64) => (lane ^^^ (lane >>> 47) ^^^ key) * prime32a)
    (words (secret.drop 128))

/-- Mixes stripes in, numbered within blocks of sixteen; there are `count` of them. -/
def accumulateAll (lanes : List UInt64) (number : Nat) : Nat → List UInt8 → List UInt64
  | 0, _ => lanes
  | count + 1, bs =>
    let lanes := accumulate lanes (bs.take 64) (8 * number)
    if number = 15 then accumulateAll (scramble lanes) 0 count (bs.drop 64)
    else accumulateAll lanes (number + 1) count (bs.drop 64)

def initialLanes : List UInt64 :=
  [prime32c, prime64a, prime64b, prime64c, prime64d, prime32b, prime64e, prime32a]

/-- Combines pairs of lanes, with the secret at `key`. -/
def mergeLanes (h : UInt64) (key : Nat) : List UInt64 → UInt64
  | x :: y :: rest =>
    mergeLanes (h + foldedProduct (x ^^^ word64 secret key) (y ^^^ word64 secret (key + 8)))
      (key + 16) rest
  | _ => h

/-- More than 240 bytes. The last 64 bytes are always a stripe of their own. -/
def long (bs : List UInt8) : UInt64 :=
  let n := bs.length
  let lanes := accumulateAll initialLanes 0 ((n - 1) / 64) bs
  let lanes := accumulate lanes (bs.drop (n - 64)) 121
  avalanche (mergeLanes (UInt64.ofNat n * prime64a) 11 lanes)

def digest (bs : List UInt8) : UInt64 :=
  let n := bs.length
  if n = 0 then strongAvalanche (word64 secret 56 ^^^ word64 secret 64)
  else if n ≤ 3 then upTo3 bs
  else if n ≤ 8 then upTo8 bs
  else if n ≤ 16 then upTo16 bs
  else if n ≤ 128 then upTo128 bs
  else if n ≤ 240 then upTo240 bs
  else long bs

def hexDigest (bs : List UInt8) : String := hex 16 (digest bs).toNat

end RepoAudit.Digest.Xxh3
