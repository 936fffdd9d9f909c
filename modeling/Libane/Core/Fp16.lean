import Mathlib

/-!
# Half and single precision

The bit-level conversions between fp16 and fp32 that the sources write by hand: `fp32_to_fp16` of
`mil_builder.cpp`, `fp16_to_fp32` of `espresso_backend.cpp` and the loop body of
`libane_matmul_f16`.

A pattern is described by its three fields, `half s e m` and `single s e m`.

* `fp16Value`, `fp32Value` — the rational number a pattern stands for.  Infinities and NaNs stand
  for none; they are given the value zero.
* `fp32Value_fp16ToFp32` — `fp16_to_fp32` is exact.
* `fp32ToFp16_promote` — what the promotion in `libane_matmul_f16` and `fp32_to_fp16` do to a
  pattern together: subnormal numbers become zeros, and NaNs become infinities.
-/

namespace Libane

/-! ## Fields -/

/-- The fp16 pattern with these sign, exponent and mantissa fields. -/
def half (s e m : ℕ) : UInt16 := UInt16.ofNat (s * 32768 + e * 1024 + m)

/-- The fp32 pattern with these fields. -/
def single (s e m : ℕ) : UInt32 := UInt32.ofNat (s * 2147483648 + e * 8388608 + m)

/-- The fields are in range. -/
structure HalfFields (s e m : ℕ) : Prop where
  sign : s < 2
  exp : e < 32
  man : m < 1024

lemma exists_half (h : UInt16) : ∃ s e m, HalfFields s e m ∧ h = half s e m := by
  have hlt : h.toNat < 65536 := h.toNat_lt
  refine ⟨h.toNat / 32768, h.toNat / 1024 % 32, h.toNat % 1024,
    ⟨by omega, by omega, by omega⟩, ?_⟩
  apply UInt16.toNat_inj.mp
  rw [half, UInt16.toNat_ofNat']
  omega

variable {s e m : ℕ}

lemma toNat_half (h : HalfFields s e m) : (half s e m).toNat = s * 32768 + e * 1024 + m := by
  have := h.sign
  have := h.exp
  have := h.man
  rw [half, UInt16.toNat_ofNat', Nat.mod_eq_of_lt (by omega)]

lemma toNat_single (hs : s < 2) (he : e < 256) (hm : m < 8388608) :
    (single s e m).toNat = s * 2147483648 + e * 8388608 + m := by
  rw [single, UInt32.toNat_ofNat', Nat.mod_eq_of_lt (by omega)]

/-- Fields that do not overlap are joined by addition. -/
lemma or_eq_add {a b k : ℕ} (hb : b < 2 ^ k) : a * 2 ^ k ||| b = a * 2 ^ k + b := by
  rw [← Nat.shiftLeft_eq, ← Nat.shiftLeft_add_eq_or_of_lt hb]

/-- Assembling an fp32 pattern from its fields. -/
lemma or_fields {S E M : UInt32} (hS : S.toNat < 2) (hE : E.toNat < 256) (hM : M.toNat < 1024) :
    S <<< 31 ||| E <<< 23 ||| M <<< 13 = single S.toNat E.toNat (M.toNat * 8192) := by
  have hor₁ := or_eq_add (a := S.toNat) (b := E.toNat * 8388608) (k := 31) (by omega)
  have hor₂ := or_eq_add (a := S.toNat * 256 + E.toNat) (b := M.toNat * 8192) (k := 23) (by omega)
  simp only [Nat.reducePow, Nat.add_mul, Nat.mul_assoc, Nat.reduceMul] at hor₁ hor₂
  apply UInt32.toNat_inj.mp
  rw [toNat_single hS hE (by omega)]
  simp only [UInt32.toNat_or, UInt32.toNat_shiftLeft, UInt32.reduceToNat, Nat.reduceMod,
    Nat.shiftLeft_eq, Nat.reducePow]
  rw [Nat.mod_eq_of_lt (by omega : S.toNat * 2147483648 < 4294967296),
    Nat.mod_eq_of_lt (by omega : E.toNat * 8388608 < 4294967296),
    Nat.mod_eq_of_lt (by omega : M.toNat * 8192 < 4294967296), hor₁, hor₂]

/-- The fields of an fp16 pattern, as the conversions read them. -/
lemma half_fields (h : HalfFields s e m) :
    ((half s e m).toUInt32 >>> 15 &&& 0x1).toNat = s ∧
    ((half s e m).toUInt32 >>> 10 &&& 0x1F).toNat = e ∧
    ((half s e m).toUInt32 &&& 0x3FF).toNat = m := by
  have hs := h.sign
  have he := h.exp
  have hm := h.man
  have h1 := Nat.and_two_pow_sub_one_eq_mod ((s * 32768 + e * 1024 + m) / 32768) 1
  have h2 := Nat.and_two_pow_sub_one_eq_mod ((s * 32768 + e * 1024 + m) / 1024) 5
  have h3 := Nat.and_two_pow_sub_one_eq_mod (s * 32768 + e * 1024 + m) 10
  simp only [Nat.reducePow, Nat.reduceSub] at h1 h2 h3
  simp only [UInt32.toNat_and, UInt32.toNat_shiftRight, UInt16.toNat_toUInt32, toNat_half h,
    UInt32.reduceToNat, Nat.reduceMod, Nat.shiftRight_eq_div_pow, Nat.reducePow, h1, h2, h3]
  omega

/-! ## The conversions -/

/-- The `while` loop of `fp16_to_fp32`.  On a nonzero mantissa it ends within ten rounds. -/
def normalise : ℕ → UInt32 → UInt32 → UInt32 × UInt32
  | 0, exp, mantissa => (exp, mantissa)
  | rounds + 1, exp, mantissa =>
      if mantissa &&& 0x400 = 0 then normalise rounds (exp - 1) (mantissa <<< 1)
      else (exp, mantissa)

/-- `fp16_to_fp32`. -/
def fp16ToFp32 (h : UInt16) : UInt32 :=
  let sign := h.toUInt32 >>> 15 &&& 0x1
  let exp := h.toUInt32 >>> 10 &&& 0x1F
  let mantissa := h.toUInt32 &&& 0x3FF
  if exp = 0 then
    if mantissa = 0 then sign <<< 31
    else
      let (exp, mantissa) := normalise 10 1 mantissa
      sign <<< 31 ||| (exp + 127 - 15) <<< 23 ||| (mantissa &&& 0x3FF) <<< 13
  else if exp = 31 then sign <<< 31 ||| (0x7F800000 : UInt32) ||| mantissa <<< 13
  else sign <<< 31 ||| (exp + 127 - 15) <<< 23 ||| mantissa <<< 13

/-- `fp32_to_fp16`. -/
def fp32ToFp16 (fb : UInt32) : UInt16 :=
  let sign := fb >>> 16 &&& 0x8000
  let exp : ℤ := (fb >>> 23 &&& 0xFF).toNat - 127 + 15
  let mantissa := fb >>> 13 &&& 0x3FF
  if exp ≤ 0 then sign.toUInt16
  else if exp ≥ 31 then (sign ||| 0x7C00).toUInt16
  else (sign ||| UInt32.ofNat exp.toNat <<< 10 ||| mantissa).toUInt16

/-- The promotion to fp32 in `libane_matmul_f16`. -/
def promote (h : UInt16) : UInt32 :=
  let s := (h.toUInt32 &&& 0x8000) <<< 16
  let e := h.toUInt32 >>> 10 &&& 0x1F
  let m := h.toUInt32 &&& 0x3FF
  if e = 0 then s ||| m <<< 13
  else if e = 31 then s ||| (0x7F800000 : UInt32) ||| m <<< 13
  else s ||| (e + 112) <<< 23 ||| m <<< 13

/-! ## The conversions on fields -/

lemma mask_eq_zero_iff {M : UInt32} (hM : M.toNat < 2048) : M &&& 0x400 = 0 ↔ M.toNat < 1024 := by
  have hmask := Nat.and_two_pow M.toNat 10
  rw [← UInt32.toNat_inj, UInt32.toNat_and]
  simp only [UInt32.reduceToNat, Nat.reducePow] at hmask ⊢
  rw [hmask, Nat.testBit_eq_decide_div_mod_eq]
  by_cases hlt : M.toNat < 1024
  · have : M.toNat / 1024 % 2 = 0 := by omega
    simp [this, hlt]
  · have : M.toNat / 1024 % 2 = 1 := by omega
    simp [this, hlt]

/-- **The loop.**  It shifts the leading one to bit 10, and counts the shifts in the exponent. -/
lemma normalise_spec : ∀ (rounds : ℕ) (E M : UInt32), M.toNat < 2048 →
    1024 ≤ M.toNat * 2 ^ rounds → ∃ k ≤ rounds, ∃ M' : UInt32,
      normalise rounds E M = (E - UInt32.ofNat k, M') ∧ M'.toNat = M.toNat * 2 ^ k ∧
        1024 ≤ M'.toNat ∧ M'.toNat < 2048
  | 0, E, M, hlt, hge => by
      rw [pow_zero, mul_one] at hge
      exact ⟨0, le_refl 0, M, by simp [normalise], by simp, hge, hlt⟩
  | rounds + 1, E, M, hlt, hge => by
      by_cases hM : M.toNat < 1024
      · have hshift : (M <<< 1).toNat = M.toNat * 2 := by
          rw [UInt32.toNat_shiftLeft]
          simp only [UInt32.reduceToNat, Nat.reduceMod, Nat.shiftLeft_eq, pow_one]
          omega
        obtain ⟨k, hk, M', hgo, hval, hge', hlt'⟩ := normalise_spec rounds (E - 1) (M <<< 1)
          (by omega) (by rw [hshift, mul_assoc, ← pow_succ']; exact hge)
        refine ⟨k + 1, by omega, M', ?_, by rw [hval, hshift, pow_succ]; ring, hge', hlt'⟩
        rw [normalise, if_pos ((mask_eq_zero_iff hlt).mpr hM), hgo]
        have hcount : E - 1 - UInt32.ofNat k = E - UInt32.ofNat (k + 1) := by
          rw [UInt32.ofNat_add]
          grind
        rw [hcount]
      · refine ⟨0, Nat.zero_le _, M, ?_, by simp, by omega, hlt⟩
        rw [normalise, if_neg fun h => hM ((mask_eq_zero_iff hlt).mp h)]
        simp

/-- `fp16_to_fp32` on an exponent that is neither all zeros nor all ones. -/
lemma fp16ToFp32_normal (h : HalfFields s e m) (h0 : e ≠ 0) (h31 : e ≠ 31) :
    fp16ToFp32 (half s e m) = single s (e + 112) (m * 8192) := by
  obtain ⟨hs, he, hm⟩ := half_fields h
  have he0 : (half s e m).toUInt32 >>> 10 &&& 0x1F ≠ 0 := fun hz => h0 (by simpa [hz] using he.symm)
  have he31 : (half s e m).toUInt32 >>> 10 &&& 0x1F ≠ 31 := fun hz =>
    h31 (by simpa [hz] using he.symm)
  have hexp : ((half s e m).toUInt32 >>> 10 &&& 0x1F) + 127 - 15 = UInt32.ofNat (e + 112) := by
    rw [← he, UInt32.ofNat_add, UInt32.ofNat_toNat]
    grind
  have hlt := h.exp
  have hnat : (UInt32.ofNat (e + 112)).toNat = e + 112 := by
    rw [UInt32.toNat_ofNat', Nat.mod_eq_of_lt (by omega)]
  simp only [fp16ToFp32, if_neg he0, if_neg he31]
  rw [hexp, or_fields (by rw [hs]; exact h.sign) (by rw [hnat]; omega) (by rw [hm]; exact h.man),
    hs, hm, hnat]

/-- `fp16_to_fp32` on infinities and NaNs. -/
lemma fp16ToFp32_special (h : HalfFields s 31 m) :
    fp16ToFp32 (half s 31 m) = single s 255 (m * 8192) := by
  obtain ⟨hs, he, hm⟩ := half_fields h
  have he' : (half s 31 m).toUInt32 >>> 10 &&& 0x1F = 31 := UInt32.toNat_inj.mp (by rw [he]; rfl)
  have hpow : (0x7F800000 : UInt32) = (255 : UInt32) <<< 23 := by decide
  have h31 : (31 : UInt32) ≠ 0 := by decide
  simp only [fp16ToFp32, he', if_neg h31, if_true, hpow]
  rw [or_fields (by rw [hs]; exact h.sign) (by decide) (by rw [hm]; exact h.man), hs, hm]
  rfl

/-- `fp16_to_fp32` on zeros. -/
lemma fp16ToFp32_zero (h : HalfFields s 0 0) : fp16ToFp32 (half s 0 0) = single s 0 0 := by
  obtain ⟨hs, he, hm⟩ := half_fields h
  have he' : (half s 0 0).toUInt32 >>> 10 &&& 0x1F = 0 := UInt32.toNat_inj.mp (by rw [he]; rfl)
  have hm' : (half s 0 0).toUInt32 &&& 0x3FF = 0 := UInt32.toNat_inj.mp (by rw [hm]; rfl)
  have hgo := or_fields (S := (half s 0 0).toUInt32 >>> 15 &&& 0x1) (E := 0) (M := 0)
    (by rw [hs]; exact h.sign) (by decide) (by decide)
  simp only [fp16ToFp32, he', hm', if_true]
  rw [hs] at hgo
  simpa using hgo

/-- `fp16_to_fp32` on the other subnormal numbers: the result is normalised. -/
lemma fp16ToFp32_subnormal (h : HalfFields s 0 m) (h0 : m ≠ 0) :
    ∃ k ≤ 10, 1024 ≤ m * 2 ^ k ∧ m * 2 ^ k < 2048 ∧
      fp16ToFp32 (half s 0 m) = single s (113 - k) ((m * 2 ^ k - 1024) * 8192) := by
  obtain ⟨hs, he, hm⟩ := half_fields h
  have he' : (half s 0 m).toUInt32 >>> 10 &&& 0x1F = 0 := UInt32.toNat_inj.mp (by rw [he]; rfl)
  have hm0 : (half s 0 m).toUInt32 &&& 0x3FF ≠ 0 := fun hz => h0 (by simpa [hz] using hm.symm)
  have hman := h.man
  obtain ⟨k, hk, M', hgo, hval, hge, hlt⟩ := normalise_spec 10 1
    ((half s 0 m).toUInt32 &&& 0x3FF) (by omega) (by rw [hm]; omega)
  rw [hm] at hval
  have hlow : (M' &&& 0x3FF).toNat = M'.toNat - 1024 := by
    have hmask := Nat.and_two_pow_sub_one_eq_mod M'.toNat 10
    simp only [Nat.reducePow, Nat.reduceSub] at hmask
    simp only [UInt32.toNat_and, UInt32.reduceToNat, hmask]
    omega
  have hexp : (1 - UInt32.ofNat k + 127 - 15).toNat = 113 - k := by
    have hsum : 1 - UInt32.ofNat k + 127 - 15 = 113 - UInt32.ofNat k := by grind
    have hkn : (UInt32.ofNat k).toNat = k := by
      rw [UInt32.toNat_ofNat', Nat.mod_eq_of_lt (by omega)]
    rw [hsum, UInt32.toNat_sub_of_le _ _ (by rw [UInt32.le_iff_toNat_le, hkn]; simp; omega), hkn]
    rfl
  refine ⟨k, hk, by omega, by omega, ?_⟩
  simp only [fp16ToFp32, he', if_true, if_neg hm0, hgo]
  rw [or_fields (by rw [hs]; exact h.sign) (by rw [hexp]; omega) (by rw [hlow]; omega), hs, hexp,
    hlow, hval]

/-! ## Values -/

/-- The number that an fp16 pattern stands for. -/
def fp16Value (h : UInt16) : ℚ :=
  let s := h.toNat / 32768
  let e := h.toNat / 1024 % 32
  let m := h.toNat % 1024
  (-1) ^ s * if e = 31 then 0 else if e = 0 then (m : ℚ) * 2 ^ (-24 : ℤ)
    else (1024 + m : ℚ) * 2 ^ ((e : ℤ) - 25)

/-- The number that an fp32 pattern stands for. -/
def fp32Value (f : UInt32) : ℚ :=
  let s := f.toNat / 2147483648
  let e := f.toNat / 8388608 % 256
  let m := f.toNat % 8388608
  (-1) ^ s * if e = 255 then 0 else if e = 0 then (m : ℚ) * 2 ^ (-149 : ℤ)
    else (8388608 + m : ℚ) * 2 ^ ((e : ℤ) - 150)

lemma fp16Value_half (h : HalfFields s e m) : fp16Value (half s e m) =
    (-1) ^ s * if e = 31 then 0 else if e = 0 then (m : ℚ) * 2 ^ (-24 : ℤ)
      else (1024 + m) * 2 ^ ((e : ℤ) - 25) := by
  have hs : (s * 32768 + e * 1024 + m) / 32768 = s := by
    have := h.exp; have := h.man; omega
  have he : (s * 32768 + e * 1024 + m) / 1024 % 32 = e := by
    have := h.exp; have := h.man; omega
  have hm : (s * 32768 + e * 1024 + m) % 1024 = m := by
    have := h.man; omega
  simp only [fp16Value, toNat_half h, hs, he, hm]

lemma fp32Value_single (hs : s < 2) (he : e < 256) (hm : m < 8388608) :
    fp32Value (single s e m) =
      (-1) ^ s * if e = 255 then 0 else if e = 0 then (m : ℚ) * 2 ^ (-149 : ℤ)
        else (8388608 + m) * 2 ^ ((e : ℤ) - 150) := by
  have hs' : (s * 2147483648 + e * 8388608 + m) / 2147483648 = s := by omega
  have he' : (s * 2147483648 + e * 8388608 + m) / 8388608 % 256 = e := by omega
  have hm' : (s * 2147483648 + e * 8388608 + m) % 8388608 = m := by omega
  simp only [fp32Value, toNat_single hs he hm, hs', he', hm']

/-- **Exactness.**  `fp16_to_fp32` changes no value. -/
theorem fp32Value_fp16ToFp32 (h : UInt16) : fp32Value (fp16ToFp32 h) = fp16Value h := by
  obtain ⟨s, e, m, hf, rfl⟩ := exists_half h
  have hs := hf.sign
  have he := hf.exp
  have hm := hf.man
  rw [fp16Value_half hf]
  by_cases h31 : e = 31
  · subst h31
    rw [fp16ToFp32_special hf, fp32Value_single hs (by norm_num) (by omega)]
    simp
  by_cases h0 : e = 0
  · subst h0
    by_cases hm0 : m = 0
    · subst hm0
      rw [fp16ToFp32_zero hf, fp32Value_single hs (by norm_num) (by norm_num)]
      simp
    · obtain ⟨k, hk, hge, hlt, hgo⟩ := fp16ToFp32_subnormal hf hm0
      rw [hgo, fp32Value_single hs (by omega) (by omega), if_neg (by omega), if_neg (by omega),
        if_neg (by norm_num), if_pos rfl]
      have hcast : ((8388608 : ℚ) + ((m * 2 ^ k - 1024) * 8192 : ℕ)) =
          m * 2 ^ (k : ℤ) * 2 ^ (13 : ℤ) := by
        rw [zpow_natCast]
        push_cast [hge]
        ring
      have hexp : ((113 - k : ℕ) : ℤ) - 150 = -37 - k := by omega
      rw [hcast, hexp, mul_assoc, mul_assoc, ← zpow_add₀ (by norm_num), ← zpow_add₀ (by norm_num)]
      congr 3
      ring
  · rw [fp16ToFp32_normal hf h0 h31, fp32Value_single hs (by omega) (by omega),
      if_neg (by omega), if_neg (by omega), if_neg h31, if_neg h0]
    have hcast : ((8388608 : ℚ) + (m * 8192 : ℕ)) = (1024 + m) * 2 ^ (13 : ℤ) := by
      push_cast
      ring
    rw [hcast, mul_assoc, ← zpow_add₀ (by norm_num)]
    congr 3
    push_cast
    ring

/-! ## Promoting and rounding again -/

/-- A subnormal pattern loses its mantissa, and so does a NaN. -/
def flush (h : UInt16) : UInt16 :=
  if h >>> 10 &&& 0x1F = 0 then h >>> 15 <<< 15
  else if h >>> 10 &&& 0x1F = 0x1F then h >>> 10 <<< 10
  else h

/-- `fp32_to_fp16` on an fp32 pattern given by its fields. -/
lemma fp32ToFp16_single (hs : s < 2) (he : e < 256) (hm : m < 8388608) :
    fp32ToFp16 (single s e m) =
      if e ≤ 112 then half s 0 0
      else if 143 ≤ e then half s 31 0 else half s (e - 112) (m / 8192) := by
  have hsign : (single s e m >>> 16 &&& 0x8000).toNat = s * 32768 := by
    have hmask := Nat.and_two_pow ((s * 2147483648 + e * 8388608 + m) / 65536) 15
    simp only [Nat.reducePow, Nat.testBit_eq_decide_div_mod_eq] at hmask
    simp only [UInt32.toNat_and, UInt32.toNat_shiftRight, toNat_single hs he hm,
      UInt32.reduceToNat, Nat.reduceMod, Nat.shiftRight_eq_div_pow, Nat.reducePow, hmask]
    have hbit : (s * 2147483648 + e * 8388608 + m) / 65536 / 32768 % 2 = s := by omega
    rw [hbit]
    interval_cases s <;> rfl
  have hexp : (single s e m >>> 23 &&& 0xFF).toNat = e := by
    have hmask := Nat.and_two_pow_sub_one_eq_mod ((s * 2147483648 + e * 8388608 + m) / 8388608) 8
    simp only [Nat.reducePow, Nat.reduceSub] at hmask
    simp only [UInt32.toNat_and, UInt32.toNat_shiftRight, toNat_single hs he hm,
      UInt32.reduceToNat, Nat.reduceMod, Nat.shiftRight_eq_div_pow, Nat.reducePow, hmask]
    omega
  have hman : (single s e m >>> 13 &&& 0x3FF).toNat = m / 8192 := by
    have hmask := Nat.and_two_pow_sub_one_eq_mod ((s * 2147483648 + e * 8388608 + m) / 8192) 10
    simp only [Nat.reducePow, Nat.reduceSub] at hmask
    simp only [UInt32.toNat_and, UInt32.toNat_shiftRight, toNat_single hs he hm,
      UInt32.reduceToNat, Nat.reduceMod, Nat.shiftRight_eq_div_pow, Nat.reducePow, hmask]
    omega
  simp only [fp32ToFp16, hexp]
  by_cases hlow : e ≤ 112
  · rw [if_pos (by omega), if_pos hlow]
    apply UInt16.toNat_inj.mp
    rw [UInt32.toNat_toUInt16, hsign, toNat_half ⟨hs, by norm_num, by norm_num⟩]
    omega
  rw [if_neg (by omega), if_neg hlow]
  by_cases hhigh : 143 ≤ e
  · have hor := or_eq_add (a := s) (b := 31744) (k := 15) (by norm_num)
    simp only [Nat.reducePow] at hor
    have hinf : (0x7C00 : UInt32).toNat = 31744 := rfl
    rw [if_pos (by omega), if_pos hhigh]
    apply UInt16.toNat_inj.mp
    rw [UInt32.toNat_toUInt16, UInt32.toNat_or, hsign, hinf, hor,
      toNat_half ⟨hs, by norm_num, by norm_num⟩]
    omega
  · have hdiff : ((e : ℤ) - 127 + 15).toNat = e - 112 := by omega
    have hor₁ := or_eq_add (a := s) (b := (e - 112) * 1024) (k := 15) (by omega)
    have hor₂ := or_eq_add (a := s * 32 + (e - 112)) (b := m / 8192) (k := 10) (by omega)
    simp only [Nat.reducePow, Nat.add_mul, Nat.mul_assoc, Nat.reduceMul] at hor₁ hor₂
    have hshift : (UInt32.ofNat (e - 112) <<< 10).toNat = (e - 112) * 1024 := by
      simp only [UInt32.toNat_shiftLeft, UInt32.toNat_ofNat', UInt32.reduceToNat, Nat.reduceMod,
        Nat.shiftLeft_eq, Nat.reducePow]
      omega
    rw [if_neg (by omega), if_neg hhigh, hdiff]
    apply UInt16.toNat_inj.mp
    rw [UInt32.toNat_toUInt16, UInt32.toNat_or, UInt32.toNat_or, hsign, hshift, hman, hor₁, hor₂,
      toNat_half ⟨hs, by omega, by omega⟩]
    omega

/-- The promotion in `libane_matmul_f16` on an fp16 pattern given by its fields. -/
lemma promote_half (h : HalfFields s e m) : promote (half s e m) =
    single s (if e = 0 then 0 else if e = 31 then 255 else e + 112) (m * 8192) := by
  obtain ⟨hs, he, hm⟩ := half_fields h
  have hes := h.exp
  have hsign : ((half s e m).toUInt32 &&& 0x8000) <<< 16 =
      ((half s e m).toUInt32 >>> 15 &&& 0x1) <<< 31 := by
    have hmask := Nat.and_two_pow (s * 32768 + e * 1024 + m) 15
    simp only [Nat.reducePow, Nat.testBit_eq_decide_div_mod_eq] at hmask
    have hss := h.sign
    have hms := h.man
    have hbit : (s * 32768 + e * 1024 + m) / 32768 % 2 = s := by omega
    apply UInt32.toNat_inj.mp
    rw [UInt32.toNat_shiftLeft, UInt32.toNat_shiftLeft, hs]
    simp only [UInt32.toNat_and, UInt16.toNat_toUInt32, toNat_half h, UInt32.reduceToNat, hmask,
      hbit, Nat.reduceMod, Nat.shiftLeft_eq, Nat.reducePow]
    interval_cases s <;> simp
  have hS : ((half s e m).toUInt32 >>> 15 &&& 0x1).toNat < 2 := by rw [hs]; exact h.sign
  have hM : ((half s e m).toUInt32 &&& 0x3FF).toNat < 1024 := by rw [hm]; exact h.man
  simp only [promote, hsign]
  by_cases h0 : e = 0
  · have he' : (half s e m).toUInt32 >>> 10 &&& 0x1F = 0 :=
      UInt32.toNat_inj.mp (by rw [he, h0]; rfl)
    have hgo := or_fields (E := 0) hS (by decide) hM
    rw [if_pos he', if_pos h0]
    simpa [hs, hm] using hgo
  have he0 : (half s e m).toUInt32 >>> 10 &&& 0x1F ≠ 0 := fun hz => h0 (by simpa [hz] using he.symm)
  rw [if_neg he0, if_neg h0]
  by_cases h31 : e = 31
  · have he' : (half s e m).toUInt32 >>> 10 &&& 0x1F = 31 :=
      UInt32.toNat_inj.mp (by rw [he, h31]; rfl)
    have hpow : (0x7F800000 : UInt32) = (255 : UInt32) <<< 23 := by decide
    have h255 : (255 : UInt32).toNat = 255 := rfl
    rw [if_pos he', if_pos h31, hpow, or_fields hS (by decide) hM, hs, hm, h255]
  · have he31 : (half s e m).toUInt32 >>> 10 &&& 0x1F ≠ 31 := fun hz =>
      h31 (by simpa [hz] using he.symm)
    have hexp : ((half s e m).toUInt32 >>> 10 &&& 0x1F) + 112 = UInt32.ofNat (e + 112) := by
      rw [UInt32.ofNat_add, ← he, UInt32.ofNat_toNat]
      grind
    have hnat : (UInt32.ofNat (e + 112)).toNat = e + 112 := by
      rw [UInt32.toNat_ofNat', Nat.mod_eq_of_lt (by omega)]
    rw [if_neg he31, if_neg h31, hexp, or_fields hS (by rw [hnat]; omega) hM, hs, hm, hnat]

/-- `flush` on fields. -/
lemma flush_half (h : HalfFields s e m) : flush (half s e m) =
    if e = 0 then half s 0 0 else if e = 31 then half s 31 0 else half s e m := by
  have hs := h.sign
  have he := h.exp
  have hm := h.man
  have hexp : (half s e m >>> 10 &&& 0x1F).toNat = e := by
    have hmask := Nat.and_two_pow_sub_one_eq_mod ((s * 32768 + e * 1024 + m) / 1024) 5
    simp only [Nat.reducePow, Nat.reduceSub] at hmask
    simp only [UInt16.toNat_and, UInt16.toNat_shiftRight, toNat_half h, UInt16.reduceToNat,
      Nat.reduceMod, Nat.shiftRight_eq_div_pow, Nat.reducePow, hmask]
    omega
  have hzero : half s e m >>> 10 &&& 0x1F = 0 ↔ e = 0 := by
    rw [← UInt16.toNat_inj, hexp]
    rfl
  have hones : half s e m >>> 10 &&& 0x1F = 0x1F ↔ e = 31 := by
    rw [← UInt16.toNat_inj, hexp]
    rfl
  simp only [flush, hzero, hones]
  by_cases h0 : e = 0
  · rw [if_pos h0, if_pos h0]
    apply UInt16.toNat_inj.mp
    simp only [UInt16.toNat_shiftLeft, UInt16.toNat_shiftRight, toNat_half h, UInt16.reduceToNat,
      Nat.reduceMod, Nat.shiftRight_eq_div_pow, Nat.shiftLeft_eq, Nat.reducePow,
      toNat_half (e := 0) (m := 0) ⟨hs, by norm_num, by norm_num⟩]
    omega
  rw [if_neg h0, if_neg h0]
  by_cases h31 : e = 31
  · rw [if_pos h31, if_pos h31]
    apply UInt16.toNat_inj.mp
    simp only [UInt16.toNat_shiftLeft, UInt16.toNat_shiftRight, toNat_half h, UInt16.reduceToNat,
      Nat.reduceMod, Nat.shiftRight_eq_div_pow, Nat.shiftLeft_eq, Nat.reducePow,
      toNat_half (e := 31) (m := 0) ⟨hs, by norm_num, by norm_num⟩]
    omega
  · rw [if_neg h31, if_neg h31]

/-- **Promoting and rounding again.**  Subnormal numbers and NaNs change, nothing else does. -/
theorem fp32ToFp16_promote (h : UInt16) : fp32ToFp16 (promote h) = flush h := by
  obtain ⟨s, e, m, hf, rfl⟩ := exists_half h
  have hs := hf.sign
  have he := hf.exp
  have hm := hf.man
  rw [promote_half hf, fp32ToFp16_single hs (by split_ifs <;> omega) (by omega), flush_half hf]
  by_cases h0 : e = 0
  · simp [h0]
  by_cases h31 : e = 31
  · simp [h31]
  · rw [if_neg h0, if_neg h31, if_neg (by omega), if_neg (by omega), if_neg h0, if_neg h31,
      Nat.add_sub_cancel, Nat.mul_div_cancel m (by norm_num)]

end Libane
