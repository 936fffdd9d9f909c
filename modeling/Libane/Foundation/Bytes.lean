import Mathlib

/-!
# Bytes, half words and matrices

Little-endian encodings, byte strings read as 16-bit words, and matrices stored row by row.

* `toLE`, `ofLE` — numbers as bytes and back.
* `halves`, `ofHalves` — a byte string as a list of 16-bit words and back; the two are inverse
  to each other on byte strings of even length.
* `transpose` — the transpose of a row-major matrix, with `getElem?_transpose` as its
  specification.
-/

namespace Bytes

/-! ## Little-endian numbers -/

/-- The `w` lowest bytes of a number, the least significant first. -/
def toLE : ℕ → ℕ → List UInt8
  | 0, _ => []
  | w + 1, n => UInt8.ofNat (n % 256) :: toLE w (n / 256)

/-- The number that a byte string stands for. -/
def ofLE : List UInt8 → ℕ
  | [] => 0
  | b :: bs => b.toNat + 256 * ofLE bs

@[simp] lemma length_toLE (w n : ℕ) : (toLE w n).length = w := by
  induction w generalizing n with
  | zero => rfl
  | succ w ih => rw [toLE, List.length_cons, ih]

/-- Reading back what was written, up to what the width drops. -/
theorem ofLE_toLE (w n : ℕ) : ofLE (toLE w n) = n % 256 ^ w := by
  induction w generalizing n with
  | zero => rw [toLE, ofLE, pow_zero, Nat.mod_one]
  | succ w ih =>
      have hbyte : (UInt8.ofNat (n % 256)).toNat = n % 256 := by
        rw [UInt8.toNat_ofNat', Nat.mod_mod_of_dvd n (by norm_num)]
      rw [toLE, ofLE, ih, hbyte, pow_succ', Nat.mod_mul]

/-- The bytes of a number. -/
lemma getElem?_toLE {w i : ℕ} (n : ℕ) (hi : i < w) :
    (toLE w n)[i]? = some (UInt8.ofNat (n / 256 ^ i % 256)) := by
  induction w generalizing n i with
  | zero => omega
  | succ w ih =>
      cases i with
      | zero => rw [toLE, List.getElem?_cons_zero, pow_zero, Nat.div_one]
      | succ i =>
          rw [toLE, List.getElem?_cons_succ, ih _ (by omega), Nat.div_div_eq_div_mul, pow_succ']

/-- A byte string stands for a number of its width. -/
lemma ofLE_lt (bs : List UInt8) : ofLE bs < 256 ^ bs.length := by
  induction bs with
  | nil => simp [ofLE]
  | cons b bs ih =>
      have hb := b.toNat_lt
      rw [ofLE, List.length_cons, pow_succ']
      omega

/-- Writing back what was read. -/
theorem toLE_ofLE (bs : List UInt8) : toLE bs.length (ofLE bs) = bs := by
  induction bs with
  | nil => rfl
  | cons b bs ih =>
      have hb := b.toNat_lt
      have hmod : (b.toNat + 256 * ofLE bs) % 256 = b.toNat := by omega
      have hdiv : (b.toNat + 256 * ofLE bs) / 256 = ofLE bs := by omega
      rw [ofLE, List.length_cons, toLE, hmod, hdiv, ih, UInt8.ofNat_toNat]

/-! ## Half words -/

/-- A 16-bit word from its low and its high byte. -/
def word (lo hi : UInt8) : UInt16 := lo.toUInt16 ||| hi.toUInt16 <<< 8

/-- A byte string read as 16-bit words; a last odd byte is left out. -/
def halves : List UInt8 → List UInt16
  | [] => []
  | [_] => []
  | lo :: hi :: rest => word lo hi :: halves rest

/-- 16-bit words written as bytes. -/
def ofHalves (ws : List UInt16) : List UInt8 :=
  ws.flatMap fun w : UInt16 => [w.toUInt8, (w >>> 8).toUInt8]

@[simp] lemma ofHalves_cons (w : UInt16) (ws : List UInt16) :
    ofHalves (w :: ws) = w.toUInt8 :: (w >>> 8).toUInt8 :: ofHalves ws := rfl

lemma length_halves : ∀ bs : List UInt8, (halves bs).length = bs.length / 2
  | [] => rfl
  | [_] => by simp [halves]
  | lo :: hi :: rest => by
      rw [halves, List.length_cons, length_halves rest, List.length_cons, List.length_cons]
      omega

@[simp] lemma length_ofHalves (ws : List UInt16) : (ofHalves ws).length = 2 * ws.length := by
  induction ws with
  | nil => rfl
  | cons w ws ih =>
      rw [ofHalves_cons, List.length_cons, List.length_cons, ih, List.length_cons]
      ring

lemma word_bytes (w : UInt16) : word w.toUInt8 (w >>> 8).toUInt8 = w := by
  apply UInt16.toBitVec_inj.mp
  ext i hi
  simp only [word, UInt16.toBitVec_or, UInt16.toBitVec_shiftLeft, UInt8.toBitVec_toUInt16,
    UInt16.toBitVec_toUInt8, UInt16.toBitVec_shiftRight]
  simp
  grind

/-- Words survive being written as bytes. -/
theorem halves_ofHalves (ws : List UInt16) : halves (ofHalves ws) = ws := by
  induction ws with
  | nil => rfl
  | cons w ws ih => rw [ofHalves_cons, halves, word_bytes, ih]

/-- Different words are written differently. -/
lemma ofHalves_injective : Function.Injective ofHalves :=
  Function.LeftInverse.injective halves_ofHalves

/-! ## Row-major matrices -/

section Matrix

variable {α : Type*}

/-- The position of an entry in a row-major matrix with `cols` columns. -/
lemma index_lt {rows cols r c : ℕ} (hr : r < rows) (hc : c < cols) :
    r * cols + c < rows * cols := by
  have h : (r + 1) * cols ≤ rows * cols := Nat.mul_le_mul_right cols hr
  rw [Nat.succ_mul] at h
  omega

/-- The transpose of a `rows × cols` matrix. -/
def transpose [Inhabited α] (rows cols : ℕ) (m : List α) : List α :=
  (List.range (cols * rows)).map fun i => m.getD (i % rows * cols + i / rows) default

variable [Inhabited α] {rows cols : ℕ} {m : List α}

@[simp] lemma length_transpose : (transpose rows cols m).length = cols * rows := by
  rw [transpose, List.length_map, List.length_range]

/-- **The transpose.**  Row `c`, column `r` of the result is row `r`, column `c` of the matrix. -/
theorem getElem?_transpose (hm : m.length = rows * cols) {r c : ℕ} (hr : r < rows)
    (hc : c < cols) : (transpose rows cols m)[c * rows + r]? = m[r * cols + c]? := by
  have hlt : r * cols + c < m.length := hm ▸ index_lt hr hc
  have hmod : (c * rows + r) % rows = r := by
    rw [Nat.add_comm, Nat.add_mul_mod_self_right, Nat.mod_eq_of_lt hr]
  have hdiv : (c * rows + r) / rows = c := by
    rw [Nat.add_comm, Nat.add_mul_div_right _ _ (Nat.zero_lt_of_lt hr), Nat.div_eq_of_lt hr,
      Nat.zero_add]
  rw [transpose, List.getElem?_map, List.getElem?_range (index_lt hc hr), Option.map_some, hmod,
    hdiv, List.getD_eq_getElem?_getD, List.getElem?_eq_getElem hlt, Option.getD_some]

end Matrix

end Bytes
