import Libane.Core.WeightBlob

/-!
# Three ways to store a matrix

The weights of a `MATMUL` reach the hardware on three paths: `from_fp16_transposed` permutes the
fp16 patterns, `libane_matmul_f16` promotes them to fp32 and lets `from_fp32` transpose and round
them again, and the Espresso backend converts them to fp32 for good.

The permutations are the same, and promoting to fp32 is exact on every pattern.  So the first two
paths differ exactly where `from_fp32` does not give back the pattern that was promoted: it flushes
subnormals and turns NaN into infinity.

* `matmul_weight_paths_iff` — the first two store the same bytes when nothing is subnormal or NaN.
* `espresso_weights_denote` — the third stores the same numbers, always.
-/

namespace Libane

open Bytes WeightBlob

/-! ## Two fp16 paths -/

/-- The weight blob of `libane_matmul_f16`. -/
def matmulWeights (B : List UInt16) (K N : ℤ) : List UInt8 := fromFp32 (B.map promote) K N true

/-- Neither a subnormal number nor a NaN: when the exponent field is all zeros or all ones, the
mantissa field is zero. -/
def NeitherSubnormalNorNaN (h : UInt16) : Prop :=
  h.toNat / 1024 % 32 = 0 ∨ h.toNat / 1024 % 32 = 31 → h.toNat % 1024 = 0

instance (h : UInt16) : Decidable (NeitherSubnormalNorNaN h) := by
  unfold NeitherSubnormalNorNaN
  infer_instance

section Fields

variable {s e m : ℕ}

/-- The fields of a pattern, read off its number. -/
lemma half_toNat_fields (h : HalfFields s e m) : (half s e m).toNat / 32768 = s ∧
    (half s e m).toNat / 1024 % 32 = e ∧ (half s e m).toNat % 1024 = m := by
  have := h.exp
  have := h.man
  rw [toNat_half h]
  omega

lemma half_inj {s' e' m' : ℕ} (h : HalfFields s e m) (h' : HalfFields s' e' m') :
    half s e m = half s' e' m' ↔ s = s' ∧ e = e' ∧ m = m' := by
  constructor
  · intro heq
    obtain ⟨hs, he, hm⟩ := half_toNat_fields h
    obtain ⟨hs', he', hm'⟩ := half_toNat_fields h'
    rw [heq] at hs he hm
    exact ⟨hs.symm.trans hs', he.symm.trans he', hm.symm.trans hm'⟩
  · rintro ⟨rfl, rfl, rfl⟩
    rfl

/-- The patterns that promoting and rounding again leave alone. -/
lemma flush_eq_self_iff (h : UInt16) : flush h = h ↔ NeitherSubnormalNorNaN h := by
  obtain ⟨s, e, m, hf, rfl⟩ := exists_half h
  obtain ⟨-, he, hm⟩ := half_toNat_fields hf
  rw [flush_half hf, NeitherSubnormalNorNaN, he, hm]
  by_cases h0 : e = 0
  · rw [if_pos h0, half_inj ⟨hf.sign, by norm_num, by norm_num⟩ hf]
    simp [h0, eq_comm]
  rw [if_neg h0]
  by_cases h31 : e = 31
  · rw [if_pos h31, half_inj ⟨hf.sign, by norm_num, by norm_num⟩ hf]
    simp [h31, eq_comm]
  · rw [if_neg h31]
    simp [h0, h31]

end Fields

/-- A matrix is determined by its transpose. -/
lemma transpose_inj {α : Type} [Inhabited α] {rows cols : ℕ} {a b : List α}
    (ha : a.length = rows * cols) (hb : b.length = rows * cols) :
    transpose rows cols a = transpose rows cols b ↔ a = b := by
  refine ⟨fun h => List.ext_getElem? fun i => ?_, fun h => h ▸ rfl⟩
  by_cases hi : i < rows * cols
  · have hcols : 0 < cols := Nat.pos_of_mul_pos_left (Nat.zero_lt_of_lt hi)
    have hsplit : i / cols * cols + i % cols = i := Nat.div_add_mod' i cols
    have hr : i / cols < rows := Nat.div_lt_of_lt_mul (by rwa [Nat.mul_comm])
    have hc := Nat.mod_lt i hcols
    have hga := getElem?_transpose ha hr hc
    have hgb := getElem?_transpose hb hr hc
    rw [hsplit] at hga hgb
    rw [← hga, ← hgb, h]
  · rw [List.getElem?_eq_none (by omega), List.getElem?_eq_none (by omega)]

/-- **Two paths.**  The blob that `libane_matmul_f16` builds for a `K × N` matrix is the one that
`from_fp16_transposed` builds, byte for byte, if and only if no entry is subnormal or NaN. -/
theorem matmul_weight_paths_iff (K N : ℕ) (B : List UInt16) (hB : B.length = K * N) :
    fromFp16Transposed (ofHalves B) K N = .ok (matmulWeights B K N) ↔
      ∀ h ∈ B, NeitherSubnormalNorNaN h := by
  have hlen : ¬ (ofHalves B).length < 2 * (K * N) := by rw [length_ofHalves, hB]; exact lt_irrefl _
  have hround : (B.map promote).map fp32ToFp16 = B.map flush := by
    rw [List.map_map]
    exact List.map_congr_left fun h _ => fp32ToFp16_promote h
  have hsame : B.map flush = B ↔ ∀ h ∈ B, NeitherSubnormalNorNaN h := by
    have hmap := List.map_inj_left (l := B) (f := flush) (g := id)
    rw [List.map_id] at hmap
    exact hmap.trans (forall₂_congr fun h _ => flush_eq_self_iff h)
  simp only [fromFp16Transposed, matmulWeights, fromFp32, Int.toNat_natCast, hround,
    halves_ofHalves, if_true]
  rw [if_neg hlen, Except.ok.injEq, makeBlob_injective.eq_iff, ofHalves_injective.eq_iff,
    transpose_inj hB (by rw [List.length_map, hB]), eq_comm, hsame]

theorem matmul_weight_paths_iff_numbers :
    fromFp16Transposed (ofHalves [0x3C00, 0xC000, 0x7C00, 0x8000, 0x0400, 0x7BFF]) (3 : ℕ)
      (2 : ℕ) = .ok (matmulWeights [0x3C00, 0xC000, 0x7C00, 0x8000, 0x0400, 0x7BFF] (3 : ℕ)
        (2 : ℕ)) :=
  (matmul_weight_paths_iff 3 2 [0x3C00, 0xC000, 0x7C00, 0x8000, 0x0400, 0x7BFF] rfl).mpr
    (by simp [NeitherSubnormalNorNaN])

/-- Ones, but for the smallest subnormal number and a NaN. -/
def onesAndNaN : List UInt16 := 0x0001 :: 0x7E00 :: List.replicate 62 0x3C00

/-- The subnormal number is stored as zero, and the NaN as infinity. -/
theorem matmul_weights_flushed :
    (∃ blob, fromFp16Transposed (ofHalves onesAndNaN) 8 8 = .ok blob ∧
      (halves (blob.drop kDataOffset))[0]? = some 0x0001 ∧
      (halves (blob.drop kDataOffset))[8]? = some 0x7E00) ∧
    (halves ((matmulWeights onesAndNaN 8 8).drop kDataOffset))[0]? = some 0x0000 ∧
    (halves ((matmulWeights onesAndNaN 8 8).drop kDataOffset))[8]? = some 0x7C00 ∧
    fromFp16Transposed (ofHalves onesAndNaN) 8 8 ≠ .ok (matmulWeights onesAndNaN 8 8) := by
  have hgraph : ∃ blob, fromFp16Transposed (ofHalves onesAndNaN) 8 8 = .ok blob ∧
      (halves (blob.drop kDataOffset))[0]? = some 0x0001 ∧
      (halves (blob.drop kDataOffset))[8]? = some 0x7E00 := by
    refine ⟨makeBlob (ofHalves (transpose 8 8 onesAndNaN)), by decide +kernel, ?_, ?_⟩
    · rw [data_makeBlob, halves_ofHalves]
      rfl
    · rw [data_makeBlob, halves_ofHalves]
      rfl
  have hinline : (halves ((matmulWeights onesAndNaN 8 8).drop kDataOffset))[0]? = some 0x0000 := by
    decide +kernel
  refine ⟨hgraph, hinline, by decide +kernel, fun heq => ?_⟩
  obtain ⟨blob, hblob, hfirst, -⟩ := hgraph
  obtain rfl : blob = matmulWeights onesAndNaN 8 8 := Except.ok.inj (hblob.symm.trans heq)
  rw [hinline] at hfirst
  exact absurd hfirst (by decide)

/-! ## The fp32 path -/

/-- `transpose_fp16_to_fp32`: `IC * OC` words of the source are read. -/
def transposeFp16ToFp32 (src : List UInt8) (IC OC : ℤ) : Outcome (List UInt32) :=
  if src.length < 2 * (IC.toNat * OC.toNat) then
    .error (.UndefinedBehaviour "transpose_fp16_to_fp32: read past the end of the weights")
  else .ok (transpose IC.toNat OC.toNat ((halves src).map fp16ToFp32))

/-- What a floating-point pattern stands for, up to its sign. -/
inductive FloatKind where
  | Finite (value : ℚ)
  | Infinite
  | NaN
  deriving DecidableEq

/-- The sign of an fp16 pattern, and what it stands for. -/
def fp16Denotes (h : UInt16) : ℕ × FloatKind :=
  (h.toNat / 32768,
    if h.toNat / 1024 % 32 = 31 then if h.toNat % 1024 = 0 then .Infinite else .NaN
    else .Finite (fp16Value h))

/-- The sign of an fp32 pattern, and what it stands for. -/
def fp32Denotes (f : UInt32) : ℕ × FloatKind :=
  (f.toNat / 2147483648,
    if f.toNat / 8388608 % 256 = 255 then if f.toNat % 8388608 = 0 then .Infinite else .NaN
    else .Finite (fp32Value f))

section Fields

variable {s e m : ℕ}

lemma single_toNat_fields (hs : s < 2) (he : e < 256) (hm : m < 8388608) :
    (single s e m).toNat / 2147483648 = s ∧ (single s e m).toNat / 8388608 % 256 = e ∧
      (single s e m).toNat % 8388608 = m := by
  rw [toNat_single hs he hm]
  omega

/-- The fields of the fp32 pattern that `fp16_to_fp32` returns, as far as they tell signs, numbers,
infinities and NaNs apart. -/
lemma fp16ToFp32_half (h : HalfFields s e m) : ∃ e' m', e' < 256 ∧ m' < 8388608 ∧
    fp16ToFp32 (half s e m) = single s e' m' ∧ (e' = 255 ↔ e = 31) ∧
      (e = 31 → (m' = 0 ↔ m = 0)) := by
  have hm := h.man
  have he := h.exp
  by_cases h31 : e = 31
  · subst h31
    exact ⟨255, m * 8192, by norm_num, by omega, fp16ToFp32_special h, by simp, fun _ => by omega⟩
  by_cases h0 : e = 0
  · subst h0
    by_cases hm0 : m = 0
    · subst hm0
      exact ⟨0, 0, by norm_num, by norm_num, fp16ToFp32_zero h, by simp, by simp⟩
    · obtain ⟨k, hk, hge, hlt, hgo⟩ := fp16ToFp32_subnormal h hm0
      exact ⟨113 - k, (m * 2 ^ k - 1024) * 8192, by omega, by omega, hgo, by omega, by simp⟩
  · exact ⟨e + 112, m * 8192, by omega, by omega, fp16ToFp32_normal h h0 h31, by omega,
      fun h => absurd h h31⟩

end Fields

/-- **The conversion keeps what a pattern stands for**: sign, value, infinities and NaNs. -/
lemma fp32Denotes_fp16ToFp32 (h : UInt16) : fp32Denotes (fp16ToFp32 h) = fp16Denotes h := by
  have hvalue := fp32Value_fp16ToFp32 h
  obtain ⟨s, e, m, hf, rfl⟩ := exists_half h
  obtain ⟨hs, he, hm⟩ := half_toNat_fields hf
  obtain ⟨e', m', he', hm', heq, hexp, hman⟩ := fp16ToFp32_half hf
  rw [heq] at hvalue ⊢
  obtain ⟨hs'', he'', hm''⟩ := single_toNat_fields hf.sign he' hm'
  simp only [fp32Denotes, fp16Denotes, hs, he, hm, hs'', he'', hm'', hvalue]
  by_cases h31 : e = 31
  · rw [if_pos h31, if_pos (hexp.mpr h31)]
    simp only [hman h31]
  · rw [if_neg h31, if_neg fun h => h31 (hexp.mp h)]

/-- The loop of `fp16_to_fp32` has come to its end within ten rounds: the test that keeps it
running fails. -/
lemma normalise_ends {mantissa : UInt32} (h0 : mantissa ≠ 0) (hlt : mantissa.toNat < 1024)
    (exp : UInt32) : (normalise 10 exp mantissa).2 &&& 0x400 ≠ 0 := by
  have hpos : 0 < mantissa.toNat := Nat.pos_of_ne_zero fun h => h0 (UInt32.toNat_inj.mp h)
  obtain ⟨k, -, M', hgo, -, hge, hlt'⟩ := normalise_spec 10 exp mantissa (by omega) (by omega)
  rw [hgo]
  exact fun h => absurd ((mask_eq_zero_iff hlt').mp h) (not_lt.mpr hge)

/-- **The fp32 path.**  For every `IC × OC` matrix of fp16 patterns, the fp32 array has the number
at `c * IC + r` that the fp16 blob stores there, the entry `r, c` of the matrix; and the
normalisation loop ends for every mantissa that is not zero. -/
theorem espresso_weights_denote (IC OC : ℕ) (B : List UInt16) (hB : B.length = IC * OC) :
    (∃ blob out, fromFp16Transposed (ofHalves B) IC OC = .ok blob ∧
      transposeFp16ToFp32 (ofHalves B) IC OC = .ok out ∧ out.length = OC * IC ∧
      ∀ r c, r < IC → c < OC → ∃ (h : UInt16) (f : UInt32),
        (halves (blob.drop kDataOffset))[c * IC + r]? = some h ∧ out[c * IC + r]? = some f ∧
          B[r * OC + c]? = some h ∧ fp32Denotes f = fp16Denotes h) ∧
    ∀ exp mantissa : UInt32, mantissa ≠ 0 → mantissa.toNat < 1024 →
      (normalise 10 exp mantissa).2 &&& 0x400 ≠ 0 := by
  have hlen : ¬ (ofHalves B).length < 2 * (IC * OC) := by
    rw [length_ofHalves, hB]
    exact lt_irrefl _
  have hblob : fromFp16Transposed (ofHalves B) IC OC =
      .ok (makeBlob (ofHalves (transpose IC OC B))) := by
    simp only [fromFp16Transposed, Int.toNat_natCast]
    rw [if_neg hlen, halves_ofHalves]
  have hout : transposeFp16ToFp32 (ofHalves B) IC OC =
      .ok (transpose IC OC (B.map fp16ToFp32)) := by
    simp only [transposeFp16ToFp32, Int.toNat_natCast]
    rw [if_neg hlen, halves_ofHalves]
  refine ⟨⟨_, _, hblob, hout, length_transpose, fun r c hr hc => ?_⟩,
    fun exp mantissa h0 hlt => normalise_ends h0 hlt exp⟩
  have hlt : r * OC + c < B.length := hB ▸ index_lt hr hc
  rw [data_makeBlob, halves_ofHalves, getElem?_transpose hB hr hc,
    getElem?_transpose (by rw [List.length_map, hB]) hr hc, List.getElem?_map,
    List.getElem?_eq_getElem hlt]
  exact ⟨_, _, rfl, rfl, rfl, fp32Denotes_fp16ToFp32 _⟩

theorem espresso_weights_denote_subnormal : ∃ out,
    transposeFp16ToFp32 (ofHalves [0x0001, 0x8000]) (1 : ℕ) (2 : ℕ) = .ok out ∧
      out.length = 2 * 1 := by
  obtain ⟨-, out, -, hout, hlen, -⟩ := (espresso_weights_denote 1 2 [0x0001, 0x8000] rfl).1
  exact ⟨out, hout, hlen⟩

end Libane
