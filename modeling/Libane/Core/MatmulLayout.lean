import Libane.Core.FallbackTranspose
import Libane.Core.WeightPaths

/-!
# The two paths of a matrix product

`libane_matmul_f16` multiplies on the hardware or on the CPU.  The hardware takes tensors of shape
`[1, C, 1, S]`, so its operand is packed with the channels first, the weights are stored
transposed, and the result is unpacked.

**Why the layouts cancel.**  Packing puts row `m` of the operand at position `m` of every channel,
the stored matrix has a row for every output channel, and unpacking reads column by column what came
out.  What the hardware computes for position `m` and channel `n` is the product of row `m` and
column `n`.  Sums are taken in exact arithmetic: in fp16 the two paths round differently.

* `storeLoop_spec` — a loop that stores at different positions, in any order.
* `packMatmulInputForAne`, `unpackMatmulOutputFromAne`, `matmulOnAne` — the hardware path, for any
  convolution that the hardware computes.
* `matmul_layout` — over exact arithmetic the hardware path leaves the row-major product.
* `matmul_paths_agree` — over exact arithmetic both paths leave the same matrix.
-/

namespace Libane

open Bytes WeightBlob Fallback

namespace Fallback

/-- **A loop that stores at different positions.**  Every round leaves its value at its position,
and the rest of the array is as it was. -/
theorem storeLoop_spec {ι β : Type} (value : ι → Outcome β) (result : ι → β) (position : ι → ℕ) :
    ∀ (rounds : List ι) (dst : List β), (∀ i ∈ rounds, value i = .ok (result i)) →
    (rounds.map position).Nodup → (∀ i ∈ rounds, position i < dst.length) →
    ∃ out, storeLoop value (fun i => (position i : ℤ)) rounds dst = .ok out ∧
      out.length = dst.length ∧ (∀ i ∈ rounds, out[position i]? = some (result i)) ∧
      ∀ j ∉ rounds.map position, out[j]? = dst[j]?
  | [], dst, _, _, _ => ⟨dst, rfl, rfl, by simp, fun _ _ => rfl⟩
  | i :: rounds, dst, hvalue, hnodup, hlt => by
      rw [List.map_cons, List.nodup_cons] at hnodup
      obtain ⟨out, hout, hlen, hwritten, hkept⟩ := storeLoop_spec value result position rounds
        (dst.set (position i) (result i)) (fun j hj => hvalue j (List.mem_cons_of_mem i hj))
        hnodup.2 (fun j hj => by
          rw [List.length_set]
          exact hlt j (List.mem_cons_of_mem i hj))
      have hi := hlt i List.mem_cons_self
      refine ⟨out, ?_, by rw [hlen, List.length_set], fun j hj => ?_, fun j hj => ?_⟩
      · rw [storeLoop] at hout ⊢
        rw [List.foldlM_cons, hvalue i List.mem_cons_self, ok_bind, store_eq hi, ok_bind]
        exact hout
      · rcases List.mem_cons.mp hj with rfl | hj
        · rw [hkept _ hnodup.1, List.getElem?_set_self hi]
        · exact hwritten j hj
      · rw [List.map_cons, List.mem_cons, not_or] at hj
        rw [hkept j hj.2, List.getElem?_set_ne (Ne.symm hj.1)]

end Fallback

/-! ## Loops over a matrix -/

/-- The rounds of `for (a < rows) for (b < cols)`. -/
def cells (rows cols : ℕ) : List (ℕ × ℕ) :=
  (List.range rows).flatMap fun a => (List.range cols).map fun b => (a, b)

lemma mem_cells {rows cols : ℕ} {c : ℕ × ℕ} : c ∈ cells rows cols ↔ c.1 < rows ∧ c.2 < cols := by
  obtain ⟨a, b⟩ := c
  simp [cells]

lemma nodup_cells (rows cols : ℕ) : (cells rows cols).Nodup := by
  have h : (List.range rows ×ˢ List.range cols).Nodup :=
    List.nodup_range.product List.nodup_range
  exact h

/-- Different entries of a matrix are stored at different places. -/
lemma index_inj {cols r c r' c' : ℕ} (hc : c < cols) (hc' : c' < cols)
    (h : r * cols + c = r' * cols + c') : r = r' ∧ c = c' := by
  have hpos : 0 < cols := Nat.zero_lt_of_lt hc
  have hr : r = r' := by
    have := congrArg (· / cols) h
    simpa [Nat.add_comm, Nat.add_mul_div_right _ _ hpos, Nat.div_eq_of_lt hc,
      Nat.div_eq_of_lt hc'] using this
  exact ⟨hr, by subst hr; exact Nat.add_left_cancel h⟩

section Layout

variable {α : Type} [Inhabited α] {M K N : ℕ}

/-- `pack_matmul_input_for_ane`. -/
def packMatmulInputForAne (A dst : List α) (M K : ℕ) : Outcome (List α) :=
  storeLoop (fun c => load A (c.1 * K + c.2 : ℕ)) (fun c => (c.2 * M + c.1 : ℕ)) (cells M K) dst

/-- `unpack_matmul_output_from_ane`. -/
def unpackMatmulOutputFromAne (Y dst : List α) (M N : ℕ) : Outcome (List α) :=
  storeLoop (fun c => load Y (c.2 * M + c.1 : ℕ)) (fun c => (c.1 * N + c.2 : ℕ)) (cells M N) dst

/-- A loop that copies the entries of one matrix to the places of another. -/
lemma copyCells (M N : ℕ) (src dst : List α) (from_ to_ : ℕ × ℕ → ℕ)
    (hfrom : ∀ c ∈ cells M N, from_ c < src.length) (hto : ∀ c ∈ cells M N, to_ c < dst.length)
    (hinj : ∀ c ∈ cells M N, ∀ c' ∈ cells M N, to_ c = to_ c' → c = c') :
    ∃ out, storeLoop (fun c => load src (from_ c : ℕ)) (fun c => (to_ c : ℕ)) (cells M N) dst =
      .ok out ∧ out.length = dst.length ∧
      ∀ m < M, ∀ n < N, out[to_ (m, n)]? = src[from_ (m, n)]? := by
  obtain ⟨out, hout, hlen, hwritten, -⟩ := storeLoop_spec
    (fun c => load src (from_ c : ℕ)) (fun c => src.getD (from_ c) default) to_ (cells M N) dst
    (fun c hc => by
      rw [load_eq (hfrom c hc), List.getD_eq_getElem?_getD,
        List.getElem?_eq_getElem (hfrom c hc), Option.getD_some])
    ((nodup_cells M N).map_on fun c hc c' hc' => hinj c hc c' hc') hto
  refine ⟨out, hout, hlen, fun m hm n hn => ?_⟩
  have hc := mem_cells.mpr (⟨hm, hn⟩ : (m, n).1 < M ∧ (m, n).2 < N)
  rw [hwritten _ hc, List.getD_eq_getElem?_getD, List.getElem?_eq_getElem (hfrom _ hc),
    Option.getD_some]

/-- **Packing** stores the matrix column by column, and needs no more room than it has. -/
lemma packMatmulInputForAne_eq {A : List α} (dst : List α) (hA : A.length = M * K)
    (hdst : dst.length = M * K) : ∃ X, packMatmulInputForAne A dst M K = .ok X ∧
      X.length = M * K ∧ ∀ m < M, ∀ k < K, X[k * M + m]? = A[m * K + k]? := by
  obtain ⟨X, hX, hlen, hget⟩ := copyCells M K A dst
    (fun c => c.1 * K + c.2) (fun c => c.2 * M + c.1)
    (fun c hc => hA ▸ index_lt (mem_cells.mp hc).1 (mem_cells.mp hc).2)
    (fun c hc => by
      rw [hdst, Nat.mul_comm M K]
      exact index_lt (mem_cells.mp hc).2 (mem_cells.mp hc).1)
    (fun c hc c' hc' h => by
      obtain ⟨h2, h1⟩ := index_inj (mem_cells.mp hc).1 (mem_cells.mp hc').1 h
      exact Prod.ext h1 h2)
  exact ⟨X, hX, hlen.trans hdst, hget⟩

/-- **Unpacking** stores every entry of the result. -/
lemma unpackMatmulOutputFromAne_eq {Y dst : List α} (hY : Y.length = N * M)
    (hdst : dst.length = M * N) : ∃ C, unpackMatmulOutputFromAne Y dst M N = .ok C ∧
      C.length = M * N ∧ ∀ m < M, ∀ n < N, C[m * N + n]? = Y[n * M + m]? := by
  obtain ⟨C, hC, hlen, hget⟩ := copyCells M N Y dst
    (fun c => c.2 * M + c.1) (fun c => c.1 * N + c.2)
    (fun c hc => hY ▸ index_lt (mem_cells.mp hc).2 (mem_cells.mp hc).1)
    (fun c hc => hdst ▸ index_lt (mem_cells.mp hc).1 (mem_cells.mp hc).2)
    (fun c hc c' hc' h => by
      obtain ⟨h1, h2⟩ := index_inj (mem_cells.mp hc).2 (mem_cells.mp hc').2 h
      exact Prod.ext h1 h2)
  exact ⟨C, hC, hlen.trans hdst, hget⟩

end Layout

/-! ## The hardware path -/

section Product

variable {R : Type} [CommSemiring R]

/-- A `conv` with a kernel of one element, exactly: `y[n][m] = sum_k W[n][k] * x[k][m]`. -/
def exactConvolution (W X : List R) (M K N : ℕ) : List R :=
  (List.range (N * M)).map fun p =>
    ((List.range K).map fun k => W.getD (p / M * K + k) 0 * X.getD (k * M + p % M) 0).sum

/-- `cblas_sgemm` on row-major matrices, exactly. -/
def exactProduct (A B : List R) (M K N : ℕ) : List R :=
  (List.range (M * N)).map fun p =>
    ((List.range K).map fun k => A.getD (p / N * K + k) 0 * B.getD (k * N + p % N) 0).sum

/-- The hardware path of `libane_matmul_f16`: pack, convolve with the stored weights, unpack.  The
hardware computes `conv1x1` on the numbers that the fp16 patterns stand for and rounds its
results. -/
def matmulOnAne {R : Type} (value : UInt16 → R) (conv1x1 : List R → List R → ℕ → ℕ → ℕ → List R)
    (round : R → UInt16) (A C : List UInt16) (blob : List UInt8) (M K N : ℕ) :
    Outcome (List UInt16) := do
  let X ← packMatmulInputForAne A (List.replicate (M * K) 0) M K
  let W := halves (blob.drop kDataOffset)
  let Y := (conv1x1 (W.map value) (X.map value) M K N).map round
  unpackMatmulOutputFromAne Y C M N

/-- The hardware convolves exactly. -/
def Convolves (conv1x1 : List R → List R → ℕ → ℕ → ℕ → List R) : Prop :=
  ∀ (W X : List R) (M K N : ℕ), W.length = N * K → X.length = K * M →
    conv1x1 W X M K N = exactConvolution W X M K N

/-- The blobs in which a right operand is stored, the inline one as long as that changes nothing. -/
def StoredFor (B : List UInt16) (K N : ℕ) (blob : List UInt8) : Prop :=
  (blob = matmulWeights B K N ∧ ∀ h ∈ B, NeitherSubnormalNorNaN h) ∨
    fromFp16Transposed (ofHalves B) K N = .ok blob

variable {A B C : List UInt16} {M K N : ℕ}

/-- The words of the stored weights. -/
lemma StoredFor.halves_eq {blob : List UInt8} (h : StoredFor B K N blob) :
    halves (blob.drop kDataOffset) = transpose K N B := by
  rcases h with ⟨rfl, hplain⟩ | h
  · have hround : (B.map promote).map fp32ToFp16 = B := by
      rw [List.map_map]
      refine (List.map_congr_left fun h hh => ?_).trans (List.map_id B)
      exact (fp32ToFp16_promote h).trans ((flush_eq_self_iff h).mpr (hplain h hh))
    rw [matmulWeights, fromFp32, data_makeBlob, halves_ofHalves, if_pos rfl, hround,
      Int.toNat_natCast, Int.toNat_natCast]
  · rw [fromFp16Transposed] at h
    split_ifs at h
    rw [← Except.ok.inj h, data_makeBlob, halves_ofHalves, halves_ofHalves, Int.toNat_natCast,
      Int.toNat_natCast]

/-- **Layout, end to end.**  The three permutations cancel. -/
lemma matmulOnAne_eq (value : UInt16 → R) {conv1x1 : List R → List R → ℕ → ℕ → ℕ → List R}
    (hconv : Convolves conv1x1) (round : R → UInt16) {blob : List UInt8}
    (hA : A.length = M * K) (hB : B.length = K * N) (hC : C.length = M * N)
    (hblob : StoredFor B K N blob) :
    ∃ C', matmulOnAne value conv1x1 round A C blob M K N = .ok C' ∧ C'.length = M * N ∧
      ∀ m < M, ∀ n < N, C'[m * N + n]? = some (round ((List.range K).map fun k =>
        value (A.getD (m * K + k) 0) * value (B.getD (k * N + n) 0)).sum) := by
  obtain ⟨X, hX, hXlen, hXget⟩ := packMatmulInputForAne_eq
    (List.replicate (M * K) 0) hA List.length_replicate
  obtain ⟨C', hC', hlen, hget⟩ := unpackMatmulOutputFromAne_eq (M := M) (N := N)
    (Y := (exactConvolution ((transpose K N B).map value) (X.map value) M K N).map round)
    (by simp [exactConvolution]) hC
  refine ⟨C', ?_, hlen, fun m hm n hn => ?_⟩
  · rw [matmulOnAne, hX, ok_bind, hblob.halves_eq]
    simp only
    rw [hconv _ _ M K N (by rw [List.length_map, length_transpose])
      (by rw [List.length_map, hXlen, Nat.mul_comm])]
    exact hC'
  · rw [hget m hm n hn, exactConvolution, List.getElem?_map, List.getElem?_map,
      List.getElem?_range (index_lt hn hm), Option.map_some, Option.map_some]
    have hmod : (n * M + m) % M = m := by
      rw [Nat.add_comm, Nat.add_mul_mod_self_right, Nat.mod_eq_of_lt hm]
    have hdiv : (n * M + m) / M = n := by
      rw [Nat.add_comm, Nat.add_mul_div_right _ _ (Nat.zero_lt_of_lt hm), Nat.div_eq_of_lt hm,
        Nat.zero_add]
    rw [hmod, hdiv]
    refine congrArg (fun l => some (round l.sum)) (List.map_congr_left fun k hk => ?_)
    have hk := List.mem_range.mp hk
    have hW := getElem?_transpose hB hk hn
    have hBk : k * N + n < B.length := hB ▸ index_lt hk hn
    have hAk : m * K + k < A.length := hA ▸ index_lt hm hk
    rw [mul_comm]
    congr 1
    · rw [List.getD_eq_getElem?_getD, List.getElem?_map, hXget m hm k hk,
        List.getD_eq_getElem?_getD, List.getElem?_eq_getElem hAk]
      rfl
    · rw [List.getD_eq_getElem?_getD, List.getElem?_map, hW,
        List.getD_eq_getElem?_getD, List.getElem?_eq_getElem hBk]
      rfl

/-- **The hardware path multiplies.**  For all sizes and all matrices, in exact arithmetic and up to
the values and the rounding of patterns, what is packed, convolved with the stored weights and
unpacked is the row-major product, and unpacking stores every element once. -/
theorem matmul_layout (value : UInt16 → R) {conv1x1 : List R → List R → ℕ → ℕ → ℕ → List R}
    (hconv : Convolves conv1x1) (round : R → UInt16) {blob : List UInt8}
    (hA : A.length = M * K) (hB : B.length = K * N) (hC : C.length = M * N)
    (hblob : StoredFor B K N blob) :
    (cells M N).map (fun c => c.1 * N + c.2) = List.range (M * N) ∧
      ∃ C', matmulOnAne value conv1x1 round A C blob M K N = .ok C' ∧ C'.length = M * N ∧
        ∀ m < M, ∀ n < N, C'[m * N + n]? = some (round ((List.range K).map fun k =>
          value (A.getD (m * K + k) 0) * value (B.getD (k * N + n) 0)).sum) := by
  refine ⟨?_, matmulOnAne_eq value hconv round hA hB hC hblob⟩
  rw [cells, List.map_flatMap, RowMajor.range_mul]
  simp only [List.map_map]
  rfl

/-- A row of two by a matrix of two by three, as `MilBackend` stores it. -/
theorem matmul_layout_row : ∃ blob C',
    fromFp16Transposed (ofHalves [0x3C00, 0x4000, 0x4200, 0xBC00, 0x0001, 0x3800]) (2 : ℕ) (3 : ℕ) =
        .ok blob ∧
      matmulOnAne exactPlatform.f16ToF32 exactConvolution exactPlatform.f32ToF16 [0x3C00, 0x4000]
        [0, 0, 0] blob 1 2 3 = .ok C' ∧
      ∀ m < 1, ∀ n < 3, C'[m * 3 + n]? = some (exactPlatform.f32ToF16
        ((List.range 2).map fun k =>
          exactPlatform.f16ToF32 (([0x3C00, 0x4000] : List UInt16).getD (m * 2 + k) 0) *
            exactPlatform.f16ToF32
              (([0x3C00, 0x4000, 0x4200, 0xBC00, 0x0001, 0x3800] : List UInt16).getD
                (k * 3 + n) 0)).sum) := by
  obtain ⟨blob, hblob⟩ : ∃ blob, fromFp16Transposed
      (ofHalves [0x3C00, 0x4000, 0x4200, 0xBC00, 0x0001, 0x3800]) (2 : ℕ) (3 : ℕ) = .ok blob :=
    ⟨_, rfl⟩
  obtain ⟨-, C', hC', -, hget⟩ := matmul_layout (A := [0x3C00, 0x4000]) (C := [0, 0, 0])
    exactPlatform.f16ToF32 (fun _ _ _ _ _ _ _ => rfl) exactPlatform.f32ToF16 rfl rfl rfl
    (Or.inr hblob)
  exact ⟨blob, C', hblob, hC', hget⟩

/-- The CPU path, when the platform multiplies exactly. -/
lemma matmulOnCpu_eq {P : Platform R}
    (hP : ∀ fA fB fC (M K N : ℕ), fC.length = M * N →
      P.matmulF32 fA fB fC M K N = exactProduct fA fB M K N)
    (hM : 0 < M) (hK : 0 < K) (hN : 0 < N) (hMK : M * K < 2 ^ 31) (hKN : K * N < 2 ^ 31)
    (hMN : M * N < 2 ^ 31) (hA : A.length = M * K) (hB : B.length = K * N)
    (hC : C.length = M * N) :
    ∃ run, matmulF16 P A B C M K N = .ok run ∧ run.C.length = M * N ∧
      ∀ m < M, ∀ n < N, run.C[m * N + n]? = some (P.f32ToF16 ((List.range K).map fun k =>
        P.f16ToF32 (A.getD (m * K + k) 0) * P.f16ToF32 (B.getD (k * N + n) 0)).sum) := by
  have hint : ∀ {a b : ℕ}, a * b < 2 ^ 31 → (mul32 a b).toNat = a * b := fun h => by
    rw [mul32_eq h, Int.toNat_natCast]
  have hMK' : M ≤ M * K := Nat.le_mul_of_pos_right M hK
  have hKN' : K ≤ K * N := Nat.le_mul_of_pos_right K hN
  have hMN' : N ≤ M * N := Nat.le_mul_of_pos_left N hM
  obtain ⟨run, hrun, hfA, hfB, hfC, hrC⟩ := matmulF16_eq (P := P) (M := M) (K := K) (N := N)
    (A := A) (B := B) (C := C) (by omega) (by omega) (by omega) (by omega) (by omega) (by omega)
    (by rw [hA]; omega) (by rw [hB]; omega) (by rw [hC]; omega)
  rw [hint hMK, ← hA] at hfA
  rw [hint hKN, ← hB] at hfB
  rw [hint hMN, ← hC] at hrC
  simp only [List.take_length, List.drop_replicate, Nat.sub_self, List.replicate_zero,
    List.append_nil, List.drop_length] at hfA hfB hrC
  rw [hP _ _ _ _ _ _ (by rw [List.length_replicate, hC]), hfA, hfB] at hfC
  have hlen : run.fC.length = C.length := by simp [hfC, exactProduct, hC]
  rw [← hlen, List.take_length] at hrC
  refine ⟨run, hrun, by rw [hrC, List.length_map, hlen, hC], fun m hm n hn => ?_⟩
  have hmod : (m * N + n) % N = n := by
    rw [Nat.add_comm, Nat.add_mul_mod_self_right, Nat.mod_eq_of_lt hn]
  have hdiv : (m * N + n) / N = m := by
    rw [Nat.add_comm, Nat.add_mul_div_right _ _ (Nat.zero_lt_of_lt hn), Nat.div_eq_of_lt hn,
      Nat.zero_add]
  rw [hrC, hfC, exactProduct, List.getElem?_map, List.getElem?_map,
    List.getElem?_range (index_lt hm hn), Option.map_some, Option.map_some, hmod, hdiv]
  refine congrArg (fun l => some (P.f32ToF16 l.sum)) (List.map_congr_left fun k hk => ?_)
  have hk := List.mem_range.mp hk
  have hAk : m * K + k < A.length := hA ▸ index_lt hm hk
  have hBk : k * N + n < B.length := hB ▸ index_lt hk hn
  simp [hAk, hBk]

/-- **Both paths of `libane_matmul_f16` multiply.**  For all sizes that the hardware path accepts
and all matrices, the packed, transposed and unpacked computation of the hardware and the plain one
of the CPU leave the same patterns, those of the row-major product, when both compute exactly and
round alike.  The weights may be stored by either function; the inline one must not meet subnormal
numbers or NaNs. -/
theorem matmul_paths_agree (P : Platform R) {conv1x1 : List R → List R → ℕ → ℕ → ℕ → List R}
    (hconv : Convolves conv1x1)
    (hP : ∀ fA fB fC (M K N : ℕ), fC.length = M * N →
      P.matmulF32 fA fB fC M K N = exactProduct fA fB M K N)
    (hM : 0 < M) (hK : 0 < K) (hN : 0 < N) (hM' : M ≤ 65536) (hK' : K ≤ 16384) (hN' : N ≤ 16384)
    (hA : A.length = M * K) (hB : B.length = K * N) (hC : C.length = M * N) {blob : List UInt8}
    (hblob : StoredFor B K N blob) :
    ∃ run, matmulF16 P A B C M K N = .ok run ∧
      matmulOnAne P.f16ToF32 conv1x1 P.f32ToF16 A C blob M K N = .ok run.C ∧
      ∀ m < M, ∀ n < N, run.C[m * N + n]? = some (P.f32ToF16 ((List.range K).map fun k =>
        P.f16ToF32 (A.getD (m * K + k) 0) * P.f16ToF32 (B.getD (k * N + n) 0)).sum) := by
  obtain ⟨C', hane, hlen', hget'⟩ := matmulOnAne_eq P.f16ToF32 hconv P.f32ToF16 hA hB hC
    hblob
  have hMK : M * K ≤ 65536 * 16384 := Nat.mul_le_mul hM' hK'
  have hKN : K * N ≤ 16384 * 16384 := Nat.mul_le_mul hK' hN'
  have hMN : M * N ≤ 65536 * 16384 := Nat.mul_le_mul hM' hN'
  obtain ⟨run, hrun, hlen, hget⟩ := matmulOnCpu_eq hP hM hK hN (by omega) (by omega) (by omega)
    hA hB hC
  refine ⟨run, hrun, ?_, hget⟩
  rw [hane]
  refine congrArg _ (List.ext_getElem? fun p => ?_)
  by_cases hp : p < M * N
  · have hm : p / N < M := Nat.div_lt_of_lt_mul (by rwa [Nat.mul_comm])
    have hn : p % N < N := Nat.mod_lt p hN
    rw [← Nat.div_add_mod' p N, hget' _ hm _ hn, hget _ hm _ hn]
  · rw [List.getElem?_eq_none (by omega), List.getElem?_eq_none (by omega)]

theorem matmul_paths_agree_row :
    ∃ run, matmulF16 exactPlatform [0x3C00, 0x4000] [0x4200, 0xBC00, 0x3C00, 0x3800] [0, 0] 1 2 2 =
        .ok run ∧
      matmulOnAne exactPlatform.f16ToF32 exactConvolution exactPlatform.f32ToF16 [0x3C00, 0x4000]
        [0, 0] (matmulWeights [0x4200, 0xBC00, 0x3C00, 0x3800] (2 : ℕ) (2 : ℕ)) 1 2 2 = .ok run.C ∧
      ∀ m < 1, ∀ n < 2, run.C[m * 2 + n]? = some (exactPlatform.f32ToF16
        ((List.range 2).map fun k =>
          exactPlatform.f16ToF32 (([0x3C00, 0x4000] : List UInt16).getD (m * 2 + k) 0) *
            exactPlatform.f16ToF32
              (([0x4200, 0xBC00, 0x3C00, 0x3800] : List UInt16).getD (k * 2 + n) 0)).sum) :=
  matmul_paths_agree (M := 1) (K := 2) (N := 2) exactPlatform (fun _ _ _ _ _ _ _ => rfl)
    (fun fA fB fC M K N h => by simp [exactPlatform, exactProduct, h])
    (by norm_num) (by norm_num) (by norm_num) (by norm_num) (by norm_num) (by norm_num) rfl rfl rfl
    (Or.inl ⟨rfl, by simp [NeitherSubnormalNorNaN]⟩)

end Product

end Libane
