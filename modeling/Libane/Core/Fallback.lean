import Libane.Core.Fp16
import Libane.Core.Shape

/-!
# The CPU matrix product

`fallback::matmul_f16` of `fallback.cpp`: promote both operands to fp32, multiply, demote the
result.  The buffers are sized by products of `size_t`; the loops that fill them run to products
of `int`, which wrap.

**Why an equivalence.**  A bound that has wrapped is smaller than the product, so its loop stops
early or does nothing.  The elements that were not promoted keep the zeros the buffers were filled
with, and those of the result that were not demoted keep what the caller had there; the function
returns `LIBANE_OK` all the same.  `FullProduct` asks that the operands are promoted everywhere,
that the product in between is the product of all of it, and that the result is demoted everywhere.

* `load`, `store`, `storeLoop`, `convertLoop` — array accesses with a check, and loops of them.
* `storeLoop_eq`, `convertLoop_eq` — what a loop leaves in its array.
* `matmulF16`, `FullProduct` — the function with its intermediate arrays, and what a full product
  is.
* `matmul_covers_iff` — every element is converted exactly when the three products of dimensions
  fit an `int`.
-/

namespace Libane

namespace Fallback

/-! ## Arrays and machine integers -/

/-- A product of two `int`, modulo `2 ^ 32`. -/
def mul32 (a b : ℤ) : ℤ := Int.bmod (a * b) (2 ^ 32)

/-- A sum of two `int`, modulo `2 ^ 32`. -/
def add32 (a b : ℤ) : ℤ := Int.bmod (a + b) (2 ^ 32)

/-- The values of `i` in `for (int i = 0; i < bound; ++i)`. -/
def upTo (bound : ℤ) : List ℤ := (List.range bound.toNat).map Int.ofNat

section Arrays

variable {α β : Type}

/-- `a[i]` -/
def load (a : List α) (i : ℤ) : Outcome α :=
  match if 0 ≤ i then a[i.toNat]? else none with
  | some x => .ok x
  | none => .error (.UndefinedBehaviour "read outside of the array")

/-- `a[i] = x` -/
def store (a : List α) (i : ℤ) (x : α) : Outcome (List α) :=
  if 0 ≤ i ∧ i.toNat < a.length then .ok (a.set i.toNat x)
  else .error (.UndefinedBehaviour "write outside of the array")

/-- A loop whose rounds each compute a value and store it. -/
def storeLoop {ι : Type} (value : ι → Outcome β) (position : ι → ℤ) (rounds : List ι)
    (dst : List β) : Outcome (List β) :=
  rounds.foldlM (fun dst i => do
    let x ← value i
    store dst (position i) x) dst

/-- `for (int i = 0; i < bound; ++i) dst[i] = convert(src[i]);` -/
def convertLoop (convert : α → β) (bound : ℤ) (src : List α) (dst : List β) :
    Outcome (List β) :=
  storeLoop (fun i => (load src i).map convert) id (upTo bound) dst

lemma load_eq {a : List α} {i : ℕ} (h : i < a.length) : load a i = .ok a[i] := by
  simp [load, h]

lemma store_eq {a : List α} {i : ℕ} {x : α} (h : i < a.length) :
    store a i x = .ok (a.set i x) := by
  simp [store, h]

lemma length_upTo {bound : ℤ} : (upTo bound).length = bound.toNat := by
  rw [upTo, List.length_map, List.length_range]

/-- **A loop that stores in order.**  When the rounds store at `0, 1, 2, …`, the array begins with
their values and is otherwise as it was. -/
theorem storeLoop_eq {ι : Type} {value : ι → Outcome β} {position : ι → ℤ} {rounds : List ι}
    {values dst : List β} (hvalue : rounds.map value = values.map .ok)
    (hposition : rounds.map position = upTo values.length) (hlen : values.length ≤ dst.length) :
    storeLoop value position rounds dst = .ok (values ++ dst.drop values.length) := by
  induction rounds using List.reverseRecOn generalizing values with
  | nil =>
      obtain rfl : values = [] := by simpa using hvalue.symm
      rfl
  | append_singleton rounds i ih =>
      rw [List.map_append, List.map_singleton] at hvalue hposition
      obtain ⟨before, last, rfl, hbefore, hlast⟩ := List.map_eq_append_iff.mp hvalue.symm
      obtain ⟨x, rfl, hx⟩ : ∃ x, last = [x] ∧ value i = .ok x := by
        obtain ⟨x, rfl, hx⟩ := List.map_eq_singleton_iff.mp hlast
        exact ⟨x, rfl, hx.symm⟩
      rw [List.length_append, List.length_singleton] at hposition hlen
      have hsplit : upTo ((before.length + 1 : ℕ) : ℤ) =
          upTo before.length ++ [(before.length : ℤ)] := by
        simp [upTo, List.range_succ]
      have hsize : rounds.length = before.length := by
        simpa using (congrArg List.length hbefore).symm
      rw [hsplit] at hposition
      obtain ⟨hbegin, hpos⟩ := List.append_inj hposition (by simp [length_upTo, hsize])
      have hrest := ih hbefore.symm hbegin (by omega)
      have hset : (before ++ dst.drop before.length).set before.length x =
          before ++ [x] ++ dst.drop (before.length + 1) := by
        have hdrop : dst.drop before.length =
            dst[before.length] :: dst.drop (before.length + 1) := List.drop_eq_getElem_cons hlen
        rw [List.set_append_right _ _ le_rfl, Nat.sub_self, hdrop, List.set_cons_zero,
          List.append_assoc, List.singleton_append]
      have hfit : before.length < (before ++ dst.drop before.length).length := by
        rw [List.length_append, List.length_drop]
        omega
      rw [storeLoop] at hrest ⊢
      rw [List.foldlM_append, hrest, ok_bind, List.foldlM_cons, hx, ok_bind,
        List.singleton_injective hpos, store_eq hfit, ok_bind, hset, List.foldlM_nil,
        List.length_append, List.length_singleton]
      rfl

/-- **A conversion loop.**  It converts the elements below its bound and leaves the others. -/
theorem convertLoop_eq {convert : α → β} {src : List α} {dst : List β} {bound : ℤ}
    (hsrc : bound.toNat ≤ src.length) (hdst : bound.toNat ≤ dst.length) :
    convertLoop convert bound src dst =
      .ok ((src.take bound.toNat).map convert ++ dst.drop bound.toNat) := by
  have hlen : ((src.take bound.toNat).map convert).length = bound.toNat := by
    rw [List.length_map, List.length_take_of_le hsrc]
  have hvalue : (upTo bound).map (fun i => (load src i).map convert) =
      ((src.take bound.toNat).map convert).map .ok := by
    refine List.ext_getElem (by simp [length_upTo, hsrc]) fun k hk _ => ?_
    rw [List.length_map, length_upTo] at hk
    have hload := load_eq (hk.trans_le hsrc)
    simp only [upTo, List.getElem_map, List.getElem_range, List.getElem_take]
    exact congrArg (Except.map convert) hload
  have hposition : (upTo bound).map id = upTo ((src.take bound.toNat).map convert).length := by
    rw [hlen, List.map_id, upTo, upTo, Int.toNat_natCast]
  rw [convertLoop, storeLoop_eq hvalue hposition (hlen.le.trans hdst), hlen]

end Arrays

/-! ## The product -/

/-- What the function takes from its platform: the conversions between fp16 patterns and
`float`, the zero of a fresh `std::vector<float>`, and `matmul_f32`, which leaves the third array
with the product of the first two. -/
structure Platform (F : Type) where
  f16ToF32 : UInt16 → F
  f32ToF16 : F → UInt16
  zero : F
  matmulF32 : List F → List F → List F → ℤ → ℤ → ℤ → List F
  exists_ne_zero : ∃ h, f16ToF32 h ≠ zero
  length_matmulF32 : ∀ fA fB fC M K N, (matmulF32 fA fB fC M K N).length = fC.length

/-- The arrays of a call of `matmul_f16` at its end. -/
structure MatmulRun (F : Type) where
  fA : List F
  fB : List F
  fC : List F
  C : List UInt16

/-- `fallback::matmul_f16`. -/
def matmulF16 {F : Type} (P : Platform F) (A B C : List UInt16) (M K N : ℤ) :
    Outcome (MatmulRun F) := do
  let fA := List.replicate (toSizeT M * toSizeT K % 2 ^ 64) P.zero
  let fB := List.replicate (toSizeT K * toSizeT N % 2 ^ 64) P.zero
  let fC := List.replicate (toSizeT M * toSizeT N % 2 ^ 64) P.zero
  let fA ← convertLoop P.f16ToF32 (mul32 M K) A fA
  let fB ← convertLoop P.f16ToF32 (mul32 K N) B fB
  let fC := P.matmulF32 fA fB fC M K N
  let C ← convertLoop P.f32ToF16 (mul32 M N) fC C
  return { fA, fB, fC, C }

/-- **The result is the full product.**  Every element of the operands was converted before the
multiplication, which fills a buffer of `M * N` elements, and every element of this buffer was
converted after it. -/
structure FullProduct {F : Type} (P : Platform F) (A B : List UInt16) (M K N : ℤ)
    (run : MatmulRun F) : Prop where
  fA_eq : run.fA = A.map P.f16ToF32
  fB_eq : run.fB = B.map P.f16ToF32
  fC_eq : run.fC = P.matmulF32 run.fA run.fB (List.replicate (M * N).toNat P.zero) M K N
  C_eq : run.C = run.fC.map P.f32ToF16

section Product

variable {F : Type} {P : Platform F} {M K N a b : ℤ}

lemma mul32_toNat_le (ha : 0 < a) (hb : 0 < b) : (mul32 a b).toNat ≤ (a * b).toNat := by
  have hpos : 0 < a * b := Int.mul_pos ha hb
  rw [mul32, Int.bmod]
  split_ifs <;> omega

/-- The loop bound is the product of the dimensions exactly when this fits an `int`. -/
lemma mul32_toNat_eq_iff (ha : 0 < a) (hb : 0 < b) :
    (mul32 a b).toNat = (a * b).toNat ↔ a * b < 2 ^ 31 := by
  have hpos : 0 < a * b := Int.mul_pos ha hb
  rw [mul32, Int.bmod]
  split_ifs <;> omega

/-- The size of a buffer, which is computed in `size_t`. -/
lemma size_eq (ha : 0 < a) (ha' : a < 2 ^ 31) (hb : 0 < b) (hb' : b < 2 ^ 31) :
    toSizeT a * toSizeT b % 2 ^ 64 = (a * b).toNat := by
  have hprod : a * b < 2 ^ 31 * 2 ^ 31 := Int.mul_lt_mul ha' hb'.le hb (by norm_num)
  have hcast : ((toSizeT a * toSizeT b : ℕ) : ℤ) = a * b := by
    rw [Nat.cast_mul, toSizeT_of_nonneg ha.le (by omega), toSizeT_of_nonneg hb.le (by omega)]
  have hnat : toSizeT a * toSizeT b = (a * b).toNat := by omega
  rw [hnat]
  exact Nat.mod_eq_of_lt (by omega)

/-- When a loop that ends early leaves the array of all converted elements, the first element it
did not reach was already there. -/
lemma getElem?_of_converted {α β : Type} {convert : α → β} {src : List α} {dst : List β} {n : ℕ}
    (hn : n < src.length)
    (heq : (src.take n).map convert ++ dst.drop n = src.map convert) :
    dst[n]? = some (convert src[n]) := by
  have htake : ((src.take n).map convert).length = n := by
    rw [List.length_map, List.length_take_of_le hn.le]
  have hget := congrArg (·[n]?) heq
  simp only [List.getElem?_map, List.getElem?_eq_getElem hn, Option.map_some] at hget
  rw [List.getElem?_append_right htake.le, htake, Nat.sub_self, List.getElem?_drop,
    Nat.add_zero] at hget
  exact hget

/-- An operand whose elements all differ from the zeros of its buffer shows how far its loop
went. -/
lemma rounds_eq_of_converted {convert : UInt16 → F} {zero : F} {h : UInt16}
    (hne : convert h ≠ zero) {n count : ℕ} (hn : n ≤ count)
    (heq : ((List.replicate count h).take n).map convert ++
      (List.replicate (List.replicate count h).length zero).drop n =
      (List.replicate count h).map convert) : n = count := by
  by_contra hlt
  have hn' : n < (List.replicate count h).length := by
    rw [List.length_replicate]
    omega
  have hget := getElem?_of_converted hn' heq
  rw [List.getElem?_replicate, if_pos hn', List.getElem_replicate] at hget
  exact hne (Option.some.inj hget).symm

/-- What the function computes: it stays inside its arrays, and converts as many elements as its
loops have rounds. -/
lemma matmulF16_eq {A B C : List UInt16} (hM : 0 < M) (hM' : M < 2 ^ 31) (hK : 0 < K)
    (hK' : K < 2 ^ 31) (hN : 0 < N) (hN' : N < 2 ^ 31) (hA : A.length = (M * K).toNat)
    (hB : B.length = (K * N).toNat) (hC : C.length = (M * N).toNat) :
    ∃ run, matmulF16 P A B C M K N = .ok run ∧
      run.fA = (A.take (mul32 M K).toNat).map P.f16ToF32 ++
        (List.replicate A.length P.zero).drop (mul32 M K).toNat ∧
      run.fB = (B.take (mul32 K N).toNat).map P.f16ToF32 ++
        (List.replicate B.length P.zero).drop (mul32 K N).toNat ∧
      run.fC = P.matmulF32 run.fA run.fB (List.replicate C.length P.zero) M K N ∧
      run.C = (run.fC.take (mul32 M N).toNat).map P.f32ToF16 ++ C.drop (mul32 M N).toNat := by
  have hMK := mul32_toNat_le hM hK
  have hKN := mul32_toNat_le hK hN
  have hMN := mul32_toNat_le hM hN
  let fA := (A.take (mul32 M K).toNat).map P.f16ToF32 ++
    (List.replicate A.length P.zero).drop (mul32 M K).toNat
  let fB := (B.take (mul32 K N).toNat).map P.f16ToF32 ++
    (List.replicate B.length P.zero).drop (mul32 K N).toNat
  let fC := P.matmulF32 fA fB (List.replicate C.length P.zero) M K N
  refine ⟨⟨fA, fB, fC, (fC.take (mul32 M N).toNat).map P.f32ToF16 ++
    C.drop (mul32 M N).toNat⟩, ?_, rfl, rfl, rfl, rfl⟩
  simp only [matmulF16, size_eq hM hM' hK hK', size_eq hK hK' hN hN', size_eq hM hM' hN hN', ← hA,
    ← hB, ← hC] at hMK hKN hMN ⊢
  rw [convertLoop_eq hMK (by simpa using hMK), ok_bind,
    convertLoop_eq hKN (by simpa using hKN), ok_bind,
    convertLoop_eq (by rw [P.length_matmulF32, List.length_replicate]; exact hMN) hMN, ok_bind]
  rfl

/-- Whatever the arrays hold, every loop must have as many rounds as its array has elements. -/
lemma products_lt_of_full (P : Platform F) (hM : 0 < M) (hM' : M < 2 ^ 31) (hK : 0 < K)
    (hK' : K < 2 ^ 31) (hN : 0 < N) (hN' : N < 2 ^ 31)
    (hfull : ∀ A B C : List UInt16, A.length = (M * K).toNat → B.length = (K * N).toNat →
      C.length = (M * N).toNat →
      ∃ run, matmulF16 P A B C M K N = .ok run ∧ FullProduct P A B M K N run) :
    M * K < 2 ^ 31 ∧ K * N < 2 ^ 31 ∧ M * N < 2 ^ 31 := by
  rw [← mul32_toNat_eq_iff hM hK, ← mul32_toNat_eq_iff hK hN, ← mul32_toNat_eq_iff hM hN]
  obtain ⟨h, hne⟩ := P.exists_ne_zero
  have hrun : ∀ v : UInt16, _ := fun v => hfull (List.replicate (M * K).toNat h)
    (List.replicate (K * N).toNat h) (List.replicate (M * N).toNat v) List.length_replicate
    List.length_replicate List.length_replicate
  have heq : ∀ v : UInt16, _ := fun v => @matmulF16_eq F P M K N (List.replicate (M * K).toNat h)
    (List.replicate (K * N).toNat h) (List.replicate (M * N).toNat v) hM hM' hK hK' hN hN'
    List.length_replicate List.length_replicate List.length_replicate
  refine ⟨?_, ?_, ?_⟩
  · obtain ⟨run, hok, hfp⟩ := hrun 0
    obtain ⟨run', hok', hfA, -⟩ := heq 0
    obtain rfl : run = run' := Except.ok.inj (hok.symm.trans hok')
    exact rounds_eq_of_converted hne (mul32_toNat_le hM hK) (hfA.symm.trans hfp.fA_eq)
  · obtain ⟨run, hok, hfp⟩ := hrun 0
    obtain ⟨run', hok', -, hfB, -⟩ := heq 0
    obtain rfl : run = run' := Except.ok.inj (hok.symm.trans hok')
    exact rounds_eq_of_converted hne (mul32_toNat_le hK hN) (hfB.symm.trans hfp.fB_eq)
  · -- the first element of the result that is not written was something else before
    obtain ⟨run₀, hok₀, hfA₀, hfB₀, hfC₀, -⟩ := heq 0
    by_contra hlt
    have hlen : run₀.fC.length = (M * N).toNat := by
      rw [hfC₀, P.length_matmulF32, List.length_replicate, List.length_replicate]
    have hn : (mul32 M N).toNat < run₀.fC.length := by
      rw [hlen]
      exact lt_of_le_of_ne (mul32_toNat_le hM hN) hlt
    let v := P.f32ToF16 run₀.fC[(mul32 M N).toNat] + 1
    obtain ⟨run, hok, hfp⟩ := hrun v
    obtain ⟨run', hok', hfA, hfB, hfC, hC⟩ := heq v
    obtain rfl : run = run' := Except.ok.inj (hok.symm.trans hok')
    have hsame : run.fC = run₀.fC := by
      simp only [hfC, hfC₀, hfA, hfA₀, hfB, hfB₀, List.length_replicate]
    have hall := hfp.C_eq
    rw [hsame] at hC hall
    have hget := getElem?_of_converted hn (hC.symm.trans hall)
    rw [List.getElem?_replicate, if_pos (hlen ▸ hn), Option.some.injEq] at hget
    have hne' : P.f32ToF16 run₀.fC[(mul32 M N).toNat] + 1 ≠
        P.f32ToF16 run₀.fC[(mul32 M N).toNat] := by
      generalize P.f32ToF16 run₀.fC[(mul32 M N).toNat] = w
      grind
    exact hne' hget

/-- **What the CPU product covers.**  For all positive dimensions of type `int`, on arrays of the
sizes they give, the call stays inside its arrays and leaves the full product, every element of both
operands and of the result converted, if and only if `M * K`, `K * N` and `M * N` fit an `int`. -/
theorem matmul_covers_iff (P : Platform F) (hM : 0 < M) (hM' : M < 2 ^ 31) (hK : 0 < K)
    (hK' : K < 2 ^ 31) (hN : 0 < N) (hN' : N < 2 ^ 31) :
    (∀ A B C : List UInt16, A.length = (M * K).toNat → B.length = (K * N).toNat →
      C.length = (M * N).toNat →
      ∃ run, matmulF16 P A B C M K N = .ok run ∧ FullProduct P A B M K N run) ↔
    M * K < 2 ^ 31 ∧ K * N < 2 ^ 31 ∧ M * N < 2 ^ 31 := by
  refine ⟨products_lt_of_full P hM hM' hK hK' hN hN', ?_⟩
  rw [← mul32_toNat_eq_iff hM hK, ← mul32_toNat_eq_iff hK hN, ← mul32_toNat_eq_iff hM hN]
  rintro ⟨hMK, hKN, hMN⟩ A B C hA hB hC
  obtain ⟨run, hrun, hfA, hfB, hfC, hrC⟩ := matmulF16_eq (P := P) hM hM' hK hK' hN hN' hA hB hC
  have hlen : run.fC.length = C.length := by
    rw [hfC, P.length_matmulF32, List.length_replicate]
  refine ⟨run, hrun, ?_, ?_, ?_, ?_⟩
  · rw [hfA, hMK, ← hA]
    simp
  · rw [hfB, hKN, ← hB]
    simp
  · rw [hfC, hC]
  · rw [hrC, hMN, ← hC, List.drop_length, ← hlen, List.take_length, List.append_nil]

end Product

/-! ## A platform -/

/-- Exact arithmetic on the numbers that the patterns stand for; a result that no pattern stands
for is demoted to zero. -/
def exactPlatform : Platform ℚ where
  f16ToF32 := fp16Value
  f32ToF16 q :=
    (((List.range 65536).map UInt16.ofNat).find? fun h => decide (fp16Value h = q)).getD 0
  zero := 0
  matmulF32 fA fB fC _ K N := (List.range fC.length).map fun p =>
    ((List.range K.toNat).map fun k =>
      fA.getD (p / N.toNat * K.toNat + k) 0 * fB.getD (k * N.toNat + p % N.toNat) 0).sum
  exists_ne_zero := by
    have hfields : HalfFields 0 15 0 := ⟨by norm_num, by norm_num, by norm_num⟩
    refine ⟨half 0 15 0, ?_⟩
    rw [fp16Value_half hfields]
    norm_num
  length_matmulF32 := by simp

/-- Two rows by two columns. -/
theorem matmul_covers_iff_square :
    ∃ run, matmulF16 exactPlatform [0x3c00, 0x4000, 0x0000, 0x3c00] [0x4000, 0x3c00, 0x3c00, 0xbc00]
        [0, 0, 0, 0] 2 2 2 = .ok run ∧
      FullProduct exactPlatform [0x3c00, 0x4000, 0x0000, 0x3c00] [0x4000, 0x3c00, 0x3c00, 0xbc00]
        2 2 2 run :=
  (matmul_covers_iff (M := 2) (K := 2) (N := 2) exactPlatform (by norm_num) (by norm_num)
    (by norm_num) (by norm_num) (by norm_num) (by norm_num)).mpr (by norm_num)
    [0x3c00, 0x4000, 0x0000, 0x3c00] [0x4000, 0x3c00, 0x3c00, 0xbc00] [0, 0, 0, 0] (by simp)
    (by simp) (by simp)

/-- A `65536 × 65536` operand has `2 ^ 32` elements, and its loop no round. -/
theorem square_operand_uncovered : ¬ ∀ A B C : List UInt16,
    A.length = (65536 * 65536 : ℤ).toNat → B.length = (65536 * 1 : ℤ).toNat →
    C.length = (65536 * 1 : ℤ).toNat →
    ∃ run, matmulF16 exactPlatform A B C 65536 65536 1 = .ok run ∧
      FullProduct exactPlatform A B 65536 65536 1 run := by
  intro hfull
  have hlt := products_lt_of_full exactPlatform (by norm_num) (by norm_num) (by norm_num)
    (by norm_num) (by norm_num) (by norm_num) hfull
  exact absurd hlt.1 (by norm_num)

end Fallback

end Libane
