import Libane.Core.Fallback
import Libane.Foundation.RowMajor

/-!
# The CPU transpose

`fallback::transpose_f16` of `fallback.cpp`: four nested loops over the output dimensions, two
sets of row-major strides, and an index of the input that is filled through the permutation.

* `strides`, `offset`, `inIndex`, `loops`, `transposeF16` — the function.
* `offset_eq` — on small arrays the wrapping arithmetic computes row-major positions.
* `transposeF16_eq` — the elements of the result, in order.
* `transpose_permutes` — the function is the permutation it names, and the inverse permutation
  undoes it.
-/

namespace Libane

namespace Fallback

open RowMajor

/-! ## The function -/

/-- The strides of a row-major array of these dimensions. -/
def strides (dims : Fin 4 → ℤ) : Fin 4 → ℤ :=
  ![mul32 (mul32 (dims 1) (dims 2)) (dims 3), mul32 (dims 2) (dims 3), dims 3, 1]

/-- The position of an index. -/
def offset (idx stride : Fin 4 → ℤ) : ℤ :=
  add32 (add32 (add32 (mul32 (idx 0) (stride 0)) (mul32 (idx 1) (stride 1)))
    (mul32 (idx 2) (stride 2))) (mul32 (idx 3) (stride 3))

/-- `for (int d = 0; d < 4; ++d) in_idx[perm[d]] = idx[d];` -/
def inIndex (perm : Fin 4 → Fin 4) (idx : Fin 4 → ℤ) : Fin 4 → ℤ :=
  (List.finRange 4).foldl (fun f d => Function.update f (perm d) (idx d)) 0

/-- The indices that the nested loops visit. -/
def loops (dims : Fin 4 → ℤ) : List (Fin 4 → ℤ) :=
  (upTo (dims 0)).flatMap fun i₀ => (upTo (dims 1)).flatMap fun i₁ =>
    (upTo (dims 2)).flatMap fun i₂ => (upTo (dims 3)).map fun i₃ => ![i₀, i₁, i₂, i₃]

/-- Where a round reads. -/
def src (dims : Fin 4 → ℤ) (perm : Fin 4 → Fin 4) (idx : Fin 4 → ℤ) : ℤ :=
  offset (inIndex perm idx) (strides dims)

/-- Where a round writes. -/
def dst (dims : Fin 4 → ℤ) (perm : Fin 4 → Fin 4) (idx : Fin 4 → ℤ) : ℤ :=
  offset idx (strides (dims ∘ perm))

/-- `fallback::transpose_f16`. -/
def transposeF16 (inp out : List UInt16) (dims : Fin 4 → ℤ) (perm : Fin 4 → Fin 4) :
    Outcome (List UInt16) :=
  storeLoop (fun idx => load inp (src dims perm idx)) (dst dims perm) (loops (dims ∘ perm)) out

/-! ## Indices as lists -/

/-- Four numbers as a list. -/
def list4 (f : Fin 4 → ℕ) : List ℕ := [f 0, f 1, f 2, f 3]

/-- A list as four numbers. -/
def index4 (l : List ℕ) (k : Fin 4) : ℕ := l.getD k 0

/-- The number of elements. -/
def volume (d : Fin 4 → ℕ) : ℕ := d 0 * (d 1 * (d 2 * d 3))

variable {d i : Fin 4 → ℕ}

lemma prod_list4 : (list4 d).prod = volume d := by
  simp [list4, volume]

lemma ravel_list4 : ravel (list4 d) (list4 i) =
    i 0 * (d 1 * (d 2 * d 3)) + (i 1 * (d 2 * d 3) + (i 2 * d 3 + i 3)) := by
  simp [list4, ravel]

lemma inBounds_list4 : InBounds (list4 d) (list4 i) ↔ ∀ k, i k < d k := by
  simp [list4, Fin.forall_fin_succ]

/-- An index of four components is given by its components. -/
lemma list4_index4 {l : List ℕ} (h : InBounds (list4 d) l) : list4 (index4 l) = l := by
  have hlen := h.length_eq
  match l, hlen with
  | [_, _, _, _], _ => rfl

/-- The loops visit the indices of the dimensions. -/
lemma loops_eq : loops (fun k => (d k : ℤ)) =
    (indices (list4 d)).map fun l k => (index4 l k : ℤ) := by
  have hvec : ∀ a b c e : ℕ, (fun k => (index4 [a, b, c, e] k : ℤ)) = ![(a : ℤ), b, c, e] :=
    fun a b c e => by
      funext k
      fin_cases k <;> rfl
  simp only [loops, upTo, list4, indices, Int.toNat_natCast, List.flatMap_map, List.map_flatMap,
    List.map_map, Function.comp_def, hvec, List.map_cons, List.map_nil]
  simp [List.map_eq_flatMap]

/-! ## Wrapping arithmetic on small numbers -/

lemma mul32_eq {a b : ℕ} (h : a * b < 2 ^ 31) : mul32 a b = ((a * b : ℕ) : ℤ) := by
  rw [mul32, ← Nat.cast_mul, Int.bmod]
  split_ifs <;> omega

lemma add32_eq {a b : ℕ} (h : a + b < 2 ^ 31) : add32 a b = ((a + b : ℕ) : ℤ) := by
  rw [add32, Int.bmod]
  split_ifs <;> omega

section Offsets

variable (hpos : ∀ k, 0 < d k) (hvol : volume d < 2 ^ 31)
include hpos hvol

lemma strides_eq : strides (fun k => (d k : ℤ)) =
    ![((d 1 * (d 2 * d 3) : ℕ) : ℤ), ((d 2 * d 3 : ℕ) : ℤ), (d 3 : ℤ), 1] := by
  have h₁ : d 1 * (d 2 * d 3) ≤ volume d := Nat.le_mul_of_pos_left _ (hpos 0)
  have h₂ : d 2 * d 3 ≤ d 1 * (d 2 * d 3) := Nat.le_mul_of_pos_left _ (hpos 1)
  have h₁₂ : d 1 * d 2 ≤ d 1 * d 2 * d 3 := Nat.le_mul_of_pos_right _ (hpos 3)
  rw [Nat.mul_assoc] at h₁₂
  rw [strides, mul32_eq (by omega), mul32_eq (by rw [Nat.mul_assoc]; omega), mul32_eq (by omega),
    Nat.mul_assoc]

/-- **On small arrays positions are row-major positions.** -/
theorem offset_eq (hi : ∀ k, i k < d k) :
    offset (fun k => (i k : ℤ)) (strides fun k => (d k : ℤ)) =
      (ravel (list4 d) (list4 i) : ℕ) := by
  have hlt : ravel (list4 d) (list4 i) < volume d := by
    rw [← prod_list4]
    exact ravel_lt (inBounds_list4.mpr hi)
  rw [ravel_list4] at hlt ⊢
  rw [offset, strides_eq hpos hvol]
  show add32 (add32 (add32 (mul32 (i 0) ((d 1 * (d 2 * d 3) : ℕ) : ℤ))
    (mul32 (i 1) ((d 2 * d 3 : ℕ) : ℤ))) (mul32 (i 2) (d 3))) (mul32 (i 3) ((1 : ℕ) : ℤ)) = _
  rw [mul32_eq (by omega), mul32_eq (by omega), mul32_eq (by omega), mul32_eq (by omega),
    add32_eq (by omega), add32_eq (by omega), add32_eq (by omega), Nat.mul_one, Nat.add_assoc,
    Nat.add_assoc]

end Offsets

/-! ## The permutation -/

section Permutation

variable {perm : Fin 4 → Fin 4} {inp out : List UInt16}

/-- The index of the input goes through the permutation. -/
lemma inIndex_perm (hperm : Function.Injective perm) (idx : Fin 4 → ℤ) (k : Fin 4) :
    inIndex perm idx (perm k) = idx k := by
  fin_cases k <;> simp [inIndex, List.finRange_succ, hperm.eq_iff]

/-- The index of the input of a round, and where the round reads. -/
lemma src_eq (hperm : Function.Bijective perm) (hpos : ∀ k, 0 < d k) (hvol : volume d < 2 ^ 31)
    {j : Fin 4 → ℕ} (hj : ∀ k, j k < d k) (hji : ∀ k, j (perm k) = i k) :
    src (fun k => (d k : ℤ)) perm (fun k => (i k : ℤ)) = (ravel (list4 d) (list4 j) : ℕ) := by
  have hindex : inIndex perm (fun k => (i k : ℤ)) = fun k => (j k : ℤ) := by
    funext k
    obtain ⟨k, rfl⟩ := hperm.2 k
    rw [inIndex_perm hperm.1, hji]
  rw [src, hindex, offset_eq hpos hvol hj]

lemma volume_comp (hperm : Function.Bijective perm) : volume (d ∘ perm) = volume d := by
  have hvol : ∀ f : Fin 4 → ℕ, volume f = ∏ k, f k := fun f => by
    rw [Fin.prod_univ_four, volume]
    ring
  rw [hvol, hvol]
  exact hperm.prod_comp d

variable (hperm : Function.Bijective perm) (hpos : ∀ k, 0 < d k) (hvol : volume d < 2 ^ 31)
include hperm hpos hvol

/-- The rounds write the positions of the output in order. -/
lemma map_dst_loops : (loops ((fun k => (d k : ℤ)) ∘ perm)).map (dst (fun k => (d k : ℤ)) perm) =
    upTo (volume d) := by
  have hposo : ∀ k, 0 < (d ∘ perm) k := fun k => hpos (perm k)
  have hvolo : volume (d ∘ perm) < 2 ^ 31 := (volume_comp hperm).trans_lt hvol
  have hround : ∀ l ∈ indices (list4 (d ∘ perm)), dst (fun k => (d k : ℤ)) perm
      (fun k => (index4 l k : ℤ)) = Int.ofNat (ravel (list4 (d ∘ perm)) l) := fun l hl => by
    have hin := mem_indices.mp hl
    rw [← list4_index4 hin, inBounds_list4] at hin
    refine (offset_eq hposo hvolo hin).trans ?_
    rw [list4_index4 (mem_indices.mp hl)]
    rfl
  have hmap : (loops fun k => ((d ∘ perm) k : ℤ)).map (dst (fun k => (d k : ℤ)) perm) =
      ((indices (list4 (d ∘ perm))).map (ravel (list4 (d ∘ perm)))).map Int.ofNat := by
    rw [loops_eq, List.map_map, List.map_map]
    refine List.map_congr_left fun l hl => ?_
    rw [Function.comp_apply, Function.comp_apply, hround l hl]
  rw [map_ravel_indices, prod_list4, volume_comp hperm] at hmap
  exact hmap

/-- Every round reads inside the input. -/
lemma src_lt {idx : Fin 4 → ℤ} (hidx : idx ∈ loops ((fun k => (d k : ℤ)) ∘ perm)) :
    ∃ p < volume d, src (fun k => (d k : ℤ)) perm idx = (p : ℤ) := by
  rw [show (fun k => (d k : ℤ)) ∘ perm = fun k => ((d ∘ perm) k : ℤ) from rfl, loops_eq,
    List.mem_map] at hidx
  obtain ⟨l, hl, rfl⟩ := hidx
  have hin := mem_indices.mp hl
  rw [← list4_index4 hin, inBounds_list4] at hin
  let e := Equiv.ofBijective perm hperm
  have he : ∀ k, e.symm (perm k) = k := fun k => e.symm_apply_apply k
  have hj : ∀ k, (index4 l ∘ e.symm) k < d k := fun k => by
    obtain ⟨k, rfl⟩ := hperm.2 k
    rw [Function.comp_apply, he]
    exact hin k
  refine ⟨_, ?_, src_eq hperm hpos hvol hj fun k => congrArg (index4 l) (he k)⟩
  rw [← prod_list4]
  exact ravel_lt (inBounds_list4.mpr hj)

/-- **The elements of the result.**  The loops write every position once, read inside the input,
and leave the element of input index `j` at the output index `i` with `j[perm[k]] = i[k]`. -/
theorem transposeF16_eq (hinp : inp.length = volume d) (hout : out.length = volume d) :
    ∃ values, transposeF16 inp out (fun k => (d k : ℤ)) perm = .ok values ∧
      values.length = volume d ∧
      ∀ i j : Fin 4 → ℕ, (∀ k, i k < d (perm k)) → (∀ k, j (perm k) = i k) →
        values[ravel (list4 (d ∘ perm)) (list4 i)]? = inp[ravel (list4 d) (list4 j)]? := by
  let e := Equiv.ofBijective perm hperm
  have he : ∀ k, e.symm (perm k) = k := fun k => e.symm_apply_apply k
  let value : List ℕ → UInt16 := fun l =>
    inp.getD (ravel (list4 d) (list4 (index4 l ∘ e.symm))) 0
  have hbound : ∀ {i j : Fin 4 → ℕ}, (∀ k, i k < d (perm k)) → (∀ k, j (perm k) = i k) →
      ∀ k, j k < d k := fun hi hji k => by
    obtain ⟨k, rfl⟩ := hperm.2 k
    exact (hji k).trans_lt (hi k)
  have hread : ∀ {j : Fin 4 → ℕ}, (∀ k, j k < d k) → ravel (list4 d) (list4 j) < inp.length :=
    fun hj => by
      rw [hinp, ← prod_list4]
      exact ravel_lt (inBounds_list4.mpr hj)
  have hround : ∀ l ∈ indices (list4 (d ∘ perm)),
      load inp (src (fun k => (d k : ℤ)) perm fun k => (index4 l k : ℤ)) = .ok (value l) :=
    fun l hl => by
      have hin := mem_indices.mp hl
      rw [← list4_index4 hin, inBounds_list4] at hin
      have hji : ∀ k, (index4 l ∘ e.symm) (perm k) = index4 l k := fun k =>
        congrArg (index4 l) (he k)
      have hj := hbound hin hji
      rw [src_eq hperm hpos hvol hj hji, load_eq (hread hj)]
      exact congrArg Except.ok (List.getD_eq_getElem _ _ (hread hj)).symm
  have hlen : ((indices (list4 (d ∘ perm))).map value).length = volume d := by
    rw [List.length_map, length_indices, prod_list4, volume_comp hperm]
  refine ⟨(indices (list4 (d ∘ perm))).map value, ?_, hlen, fun i j hi hji => ?_⟩
  · have hvalue : (loops ((fun k => (d k : ℤ)) ∘ perm)).map
        (fun idx => load inp (src (fun k => (d k : ℤ)) perm idx)) =
        ((indices (list4 (d ∘ perm))).map value).map .ok := by
      rw [show (fun k => (d k : ℤ)) ∘ perm = fun k => ((d ∘ perm) k : ℤ) from rfl, loops_eq,
        List.map_map, List.map_map]
      exact List.map_congr_left hround
    have hposition := map_dst_loops hperm hpos hvol
    rw [← hlen] at hposition
    rw [transposeF16, storeLoop_eq hvalue hposition (hlen.trans hout.symm).le, hlen, ← hout,
      List.drop_length, List.append_nil]
  · have hj : index4 (list4 i) ∘ e.symm = j := by
      funext k
      obtain ⟨k, rfl⟩ := hperm.2 k
      have hi4 : index4 (list4 i) k = i k := by
        fin_cases k <;> rfl
      rw [Function.comp_apply, he, hi4, hji]
    have hlt := hread (hbound hi hji)
    rw [getElem?_map_indices ((inBounds_list4 (d := d ∘ perm)).mpr hi),
      List.getElem?_eq_getElem hlt]
    show some (inp.getD (ravel (list4 d) (list4 (index4 (list4 i) ∘ e.symm))) 0) = _
    rw [hj, List.getD_eq_getElem _ _ hlt]

/-- **The inverse permutation undoes the transposition.** -/
theorem transposeF16_inverse {inv : Fin 4 → Fin 4} (hinv : ∀ k, inv (perm k) = k)
    {values out' : List UInt16} (hinp : inp.length = volume d) (hout : out.length = volume d)
    (hout' : out'.length = volume d)
    (h : transposeF16 inp out (fun k => (d k : ℤ)) perm = .ok values) :
    transposeF16 values out' (fun k => ((d ∘ perm) k : ℤ)) inv = .ok inp := by
  have hinv' : ∀ k, perm (inv k) = k := fun k => by
    obtain ⟨k, rfl⟩ := hperm.2 k
    rw [hinv]
  have hbij : Function.Bijective inv :=
    ⟨fun a b hab => by rw [← hinv' a, hab, hinv'], fun k => ⟨perm k, hinv k⟩⟩
  have hvolo : volume (d ∘ perm) = volume d := volume_comp hperm
  obtain ⟨_, hv, hlen, helem⟩ := transposeF16_eq hperm hpos hvol hinp hout
  obtain rfl := Except.ok.inj (h.symm.trans hv)
  obtain ⟨back, hback, hlenb, helemb⟩ := transposeF16_eq (d := d ∘ perm) hbij
    (fun k => hpos (perm k)) (hvolo.trans_lt hvol) (hlen.trans hvolo.symm) (hout'.trans hvolo.symm)
  have hdims : (d ∘ perm) ∘ inv = d := funext fun k => congrArg d (hinv' k)
  rw [hvolo] at hlenb
  refine hback.trans (congrArg Except.ok (List.ext_getElem? fun p => ?_))
  by_cases hp : p < volume d
  · -- follow the index of the position there and back
    have hin : InBounds (list4 d) (unravel (list4 d) p) :=
      inBounds_unravel (prod_list4 ▸ hp)
    let i := index4 (unravel (list4 d) p)
    have hi : list4 i = unravel (list4 d) p := list4_index4 hin
    have hilt : ∀ k, i k < d k := inBounds_list4.mp (hi ▸ hin)
    have hpos' : ravel (list4 d) (list4 i) = p := by
      rw [hi]
      exact ravel_unravel (prod_list4 ▸ hp)
    have hthere := helem (i ∘ perm) i (fun k => hilt (perm k)) fun k => rfl
    have hagain := helemb i (i ∘ perm) (fun k => by simpa [hinv' k] using hilt k) fun k =>
      congrArg i (hinv' k)
    rw [hdims, hthere, hpos'] at hagain
    exact hagain
  · rw [List.getElem?_eq_none (by omega), List.getElem?_eq_none (by omega)]

end Permutation

/-- The row-major position of an index. -/
def position (dims idx : Fin 4 → ℤ) : ℤ :=
  ((idx 0 * dims 1 + idx 1) * dims 2 + idx 2) * dims 3 + idx 3

lemma position_natCast {d i : Fin 4 → ℕ} :
    position (fun k => (d k : ℤ)) (fun k => (i k : ℤ)) = (ravel (list4 d) (list4 i) : ℕ) := by
  rw [position, ravel_list4]
  push_cast
  ring

/-- **The CPU transpose.**  For positive dimensions with fewer than `2 ^ 31` elements and every
permutation: each position of the output is written once, only positions of the input are read,
the element at output index `i` is the input's at the index `j` with `j[perm[k]] = i[k]`, and the
inverse permutation on the permuted dimensions restores the input. -/
theorem transpose_permutes {dims : Fin 4 → ℤ} (hpos : ∀ k, 0 < dims k)
    (hprod : ∏ k, dims k < 2 ^ 31) {perm : Fin 4 → Fin 4} (hperm : Function.Bijective perm)
    {inp out : List UInt16} (hinp : (inp.length : ℤ) = ∏ k, dims k)
    (hout : out.length = inp.length) :
    ((loops (dims ∘ perm)).map (dst dims perm)).Perm (upTo (∏ k, dims k)) ∧
    (∀ idx ∈ loops (dims ∘ perm), 0 ≤ src dims perm idx ∧ src dims perm idx < ∏ k, dims k) ∧
    ∃ values, transposeF16 inp out dims perm = .ok values ∧ values.length = inp.length ∧
      (∀ i j : Fin 4 → ℤ, (∀ k, 0 ≤ i k ∧ i k < dims (perm k)) → (∀ k, j (perm k) = i k) →
        values[(position (dims ∘ perm) i).toNat]? = inp[(position dims j).toNat]?) ∧
      ∀ (inv : Fin 4 → Fin 4) (out' : List UInt16), (∀ k, inv (perm k) = k) →
        out'.length = inp.length → transposeF16 values out' (dims ∘ perm) inv = .ok inp := by
  lift dims to Fin 4 → ℕ using fun k => (hpos k).le
  have hcount : ∏ k, (dims k : ℤ) = (volume dims : ℕ) := by
    rw [Fin.prod_univ_four, volume]
    push_cast
    ring
  have hposn : ∀ k, 0 < dims k := fun k => Int.natCast_pos.mp (hpos k)
  rw [hcount] at hprod hinp ⊢
  have hvol : volume dims < 2 ^ 31 := by exact_mod_cast hprod
  have hinpn : inp.length = volume dims := by exact_mod_cast hinp
  refine ⟨?_, ?_, ?_⟩
  · rw [map_dst_loops hperm hposn hvol]
  · intro idx hidx
    obtain ⟨p, hp, hsrc⟩ := src_lt hperm hposn hvol hidx
    rw [hsrc]
    omega
  · obtain ⟨values, hvalues, hlen, helem⟩ :=
      transposeF16_eq hperm hposn hvol hinpn (hout.trans hinpn)
    refine ⟨values, hvalues, hlen.trans hinpn.symm, fun i j hi hji => ?_, ?_⟩
    · have hj : ∀ k, 0 ≤ j k := fun k => by
        obtain ⟨k, rfl⟩ := hperm.2 k
        rw [hji]
        exact (hi k).1
      lift i to Fin 4 → ℕ using fun k => (hi k).1
      lift j to Fin 4 → ℕ using hj
      have helem' := helem i j (fun k => Int.ofNat_lt.mp (hi k).2) fun k => Int.ofNat_inj.mp (hji k)
      rw [position_natCast, show (fun k => (dims k : ℤ)) ∘ perm = fun k => ((dims ∘ perm) k : ℤ)
        from rfl, position_natCast, Int.toNat_natCast, Int.toNat_natCast]
      exact helem'
    · intro inv out' hinv hout'
      exact transposeF16_inverse hperm hposn hvol hinv hinpn (hout.trans hinpn)
        (hout'.trans hinpn) hvalues

theorem transpose_permutes_cycle : ∃ values,
    transposeF16 [10, 11, 12, 13, 14, 15] [0, 0, 0, 0, 0, 0] ![2, 3, 1, 1] ![1, 2, 0, 3] =
      .ok values ∧
    transposeF16 values [0, 0, 0, 0, 0, 0] (![2, 3, 1, 1] ∘ ![1, 2, 0, 3]) ![2, 0, 1, 3] =
      .ok [10, 11, 12, 13, 14, 15] := by
  obtain ⟨-, -, values, hvalues, -, -, hback⟩ :=
    @transpose_permutes ![2, 3, 1, 1] (by decide) (by decide) ![1, 2, 0, 3]
      (by decide) [10, 11, 12, 13, 14, 15] [0, 0, 0, 0, 0, 0] (by decide) rfl
  exact ⟨values, hvalues, hback ![2, 0, 1, 3] [0, 0, 0, 0, 0, 0] (by decide) rfl⟩

/-- A permutation that is not its own inverse. -/
example : transposeF16 [10, 11, 12, 13, 14, 15] [0, 0, 0, 0, 0, 0] ![2, 3, 1, 1] ![1, 2, 0, 3] =
    .ok [10, 13, 11, 14, 12, 15] := by decide

end Fallback

end Libane
