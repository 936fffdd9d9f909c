import Libane.Core.WeightBlob

/-!
# The hash of the weights

`xxhash64` of `mil_builder.cpp` over the data of a blob, in 64-bit arithmetic.  It is part of the
key under which a compiled program is cached.

* `WeightBlob.xxhash64` — the hash of a byte string.
* `WeightBlob.computeHash` — the hash of a blob, zero when it has no data.
-/

namespace Libane

namespace WeightBlob

open Bytes

def P1 : UInt64 := 11400714785074694791
def P2 : UInt64 := 14029467366897019727
def P3 : UInt64 := 1609587929392839161
def P4 : UInt64 := 9650029242287828579
def P5 : UInt64 := 2870177450012600261

def rotl (x r : UInt64) : UInt64 := (x <<< r) ||| (x >>> (64 - r))

/-- The first `n` bytes as a number. -/
def lane (n : ℕ) (p : List UInt8) : UInt64 := UInt64.ofNat (ofLE (p.take n))

/-- The four accumulators of the loop over 32 bytes at a time. -/
structure Lanes where
  v1 : UInt64
  v2 : UInt64
  v3 : UInt64
  v4 : UInt64

/-- One round of that loop. -/
def Lanes.absorb (v : Lanes) (p : List UInt8) : Lanes where
  v1 := rotl (v.v1 + lane 8 p * P2) 31 * P1
  v2 := rotl (v.v2 + lane 8 (p.drop 8) * P2) 31 * P1
  v3 := rotl (v.v3 + lane 8 (p.drop 16) * P2) 31 * P1
  v4 := rotl (v.v4 + lane 8 (p.drop 24) * P2) 31 * P1

/-- What follows that loop. -/
def Lanes.combine (v : Lanes) : UInt64 :=
  let merge := fun h w : UInt64 => (h ^^^ (rotl (w * P2) 31 * P1)) * P1 + P4
  [v.v1, v.v2, v.v3, v.v4].foldl merge
    (rotl v.v1 1 + rotl v.v2 7 + rotl v.v3 12 + rotl v.v4 18)

/-- `xxhash64` with its default seed, zero. -/
def xxhash64 (data : List UInt8) : UInt64 :=
  let rounds := data.length / 32
  let h := if 32 ≤ data.length then
      ((List.range rounds).foldl (fun v i => v.absorb (data.drop (32 * i)))
        (⟨P1 + P2, P2, 0, 0 - P1⟩ : Lanes)).combine
    else P5
  let h := h + UInt64.ofNat data.length
  let rest := data.drop (32 * rounds)
  let h := (List.range (rest.length / 8)).foldl (fun h i =>
    rotl (h ^^^ (rotl (lane 8 (rest.drop (8 * i)) * P2) 31 * P1)) 27 * P1 + P4) h
  let rest := rest.drop (8 * (rest.length / 8))
  let h := if 4 ≤ rest.length then rotl (h ^^^ (lane 4 rest * P1)) 23 * P2 + P3 else h
  let rest := if 4 ≤ rest.length then rest.drop 4 else rest
  let h := rest.foldl (fun h b => rotl (h ^^^ (b.toUInt64 * P5)) 11 * P1) h
  let h := (h ^^^ (h >>> 33)) * P2
  let h := (h ^^^ (h >>> 29)) * P3
  h ^^^ (h >>> 32)

/-- `compute_hash` of a blob. -/
def computeHash (blob : List UInt8) : UInt64 :=
  if blob.length ≤ kDataOffset then 0 else xxhash64 (blob.drop kDataOffset)

end WeightBlob

end Libane
