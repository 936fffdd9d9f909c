import Libane.Core.Fp16
import Libane.Core.Shape
import Libane.Foundation.Bytes

/-!
# Weight blobs

`WeightBlob` of `mil_builder.cpp`: 128 bytes of header, then the fp16 data.

* `makeBlob` — a blob around its data; `data_makeBlob` and `sizeField_makeBlob` read it back.
* `fromFp16`, `fromFp16Transposed`, `fromFp32` — the three ways to come by the data.
-/

namespace Libane

namespace WeightBlob

open Bytes

/-- `kDataOffset`. -/
def kDataOffset : ℕ := 128

/-- The header that `make_blob` writes: file type and version, chunk magic and type, the byte
count of the data and the place where it begins. -/
def blobHeader (weightBytes : ℕ) : List UInt8 :=
  [1, 0, 0, 0, 2] ++ List.replicate 59 0 ++ toLE 4 0xDEADBEEF ++ [1, 0, 0, 0] ++
    toLE 4 weightBytes ++ List.replicate 4 0 ++ toLE 4 128 ++ List.replicate 44 0

/-- A blob with this data. -/
def makeBlob (data : List UInt8) : List UInt8 := blobHeader data.length ++ data

/-- `from_fp16`. -/
def fromFp16 (src : List UInt8) : List UInt8 := makeBlob src

/-- `from_fp16_transposed`: `rows * cols` words of the source are read. -/
def fromFp16Transposed (src : List UInt8) (rows cols : ℤ) : Outcome (List UInt8) :=
  if src.length < 2 * (rows.toNat * cols.toNat) then
    .error (.UndefinedBehaviour "from_fp16_transposed: read past the end of the weights")
  else .ok (makeBlob (ofHalves (transpose rows.toNat cols.toNat (halves src))))

/-- `from_fp32`. -/
def fromFp32 (src : List UInt32) (rows cols : ℤ) (transposed : Bool) : List UInt8 :=
  let words := src.map fp32ToFp16
  makeBlob (ofHalves (if transposed then transpose rows.toNat cols.toNat words else words))

/-! ## Reading a blob back -/

@[simp] lemma length_blobHeader (n : ℕ) : (blobHeader n).length = kDataOffset := by
  simp [blobHeader, kDataOffset]

@[simp] lemma length_makeBlob (data : List UInt8) :
    (makeBlob data).length = kDataOffset + data.length := by
  rw [makeBlob, List.length_append, length_blobHeader]

/-- The data begins at `kDataOffset`. -/
lemma data_makeBlob (data : List UInt8) : (makeBlob data).drop kDataOffset = data := by
  rw [makeBlob, ← length_blobHeader data.length, List.drop_left]

/-- Bytes 72 to 75 hold the size of the data, modulo `2 ^ 32`. -/
lemma sizeField_makeBlob (data : List UInt8) :
    ofLE (((makeBlob data).drop 72).take 4) = data.length % 2 ^ 32 := by
  have hfield : ((makeBlob data).drop 72).take 4 = toLE 4 data.length := by
    simp [makeBlob, blobHeader, toLE]
  rw [hfield, ofLE_toLE]
  norm_num

/-- Different data make different blobs. -/
lemma makeBlob_injective : Function.Injective makeBlob := by
  intro a b h
  rw [← data_makeBlob a, h, data_makeBlob]

end WeightBlob

end Libane
