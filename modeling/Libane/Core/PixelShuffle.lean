import Libane.Core.MilMeaning
import Mathlib.Data.Set.Function

/-!
# Pixel shuffle is depth-to-space

The fragment of `PIXEL_SHUFFLE` reshapes `[1, C * r, 1, S]` to `[1, C, r, S]`, exchanges the last
two dimensions and reshapes to `[1, C, 1, S * r]`.

* `shuffle` — the three operations on a tensor, `shuffle_elem` what they do to an element.
* `shuffleSource_bijOn` — every element of the operand goes to one place.
* `pixel_shuffle_depth_to_space` — the fragment computes `out[c][s * r + k] = x[c * r + k][s]`.
-/

namespace Libane

open RowMajor MilBuilder

/-! ## The operations -/

/-- Reshape, transpose, reshape. -/
def shuffle {K : Type} (outC inSP r : ℕ) (x : MilTensor K) : MilTensor K :=
  ((x.reshape [1, outC, r, inSP]).transpose [0, 1, 3, 2]).reshape [1, outC, 1, inSP * r]

/-- The channel and the position that an element of the result comes from. -/
def shuffleSource (r : ℕ) (p : ℕ × ℕ) : ℕ × ℕ := (p.1 * r + p.2 % r, p.2 / r)

section Shuffle

variable {K : Type} {outC inSP r c s k : ℕ} {x : MilTensor K}

/-- **Depth to space.** -/
lemma shuffle_elem (hx : x.dims = [1, outC * r, 1, inSP]) (hc : c < outC) (hs : s < inSP)
    (hk : k < r) :
    (shuffle outC inSP r x).elem [0, c, 0, s * r + k] = x.elem [0, c * r + k, 0, s] := by
  have hout : ravel [1, outC, 1, inSP * r] [0, c, 0, s * r + k] =
      ravel [1, outC, inSP, r] [0, c, s, k] := by
    simp [ravel]
  have hin : ravel [1, outC, r, inSP] [0, c, k, s] =
      ravel [1, outC * r, 1, inSP] [0, c * r + k, 0, s] := by
    simp [ravel]
    ring
  have hrow : c * r + k < outC * r := by
    have h : (c + 1) * r ≤ outC * r := Nat.mul_le_mul_right r hc
    rw [Nat.succ_mul] at h
    omega
  have hperm : (List.range 4).map (fun e => [0, c, s, k].getD ([0, 1, 3, 2].idxOf e) 0) =
      [0, c, k, s] := rfl
  calc (shuffle outC inSP r x).elem [0, c, 0, s * r + k]
      = ((x.reshape [1, outC, r, inSP]).transpose [0, 1, 3, 2]).elem [0, c, s, k] :=
        MilTensor.reshape_elem hout (show InBounds [1, outC, inSP, r] _ by simp [hc, hs, hk])
    _ = (x.reshape [1, outC, r, inSP]).elem [0, c, k, s] := by
        rw [← hperm]
        rfl
    _ = x.elem [0, c * r + k, 0, s] :=
        MilTensor.reshape_elem (hx ▸ hin) (by simp [hx, hrow, hs])

/-- Every element of the operand goes to one place of the result. -/
lemma shuffleSource_bijOn (hr : 0 < r) : Set.BijOn (shuffleSource r)
    {p | p.1 < outC ∧ p.2 < inSP * r} {p | p.1 < outC * r ∧ p.2 < inSP} := by
  refine Set.InvOn.bijOn (show Set.InvOn (fun p : ℕ × ℕ => (p.1 / r, p.2 * r + p.1 % r)) _ _ _
    from ⟨?_, ?_⟩) ?_ ?_
  · rintro ⟨c, q⟩ -
    have hmod : q % r < r := Nat.mod_lt q hr
    have hdiv : (c * r + q % r) / r = c := by
      rw [Nat.add_comm, Nat.add_mul_div_right _ _ hr, Nat.div_eq_of_lt hmod, Nat.zero_add]
    have hrest : (c * r + q % r) % r = q % r := by
      rw [Nat.add_comm, Nat.add_mul_mod_self_right, Nat.mod_mod]
    simp only [shuffleSource, hdiv, hrest]
    rw [Nat.mul_comm, Nat.div_add_mod]
  · rintro ⟨c, s⟩ -
    have hmod : c % r < r := Nat.mod_lt c hr
    have hdiv : (s * r + c % r) / r = s := by
      rw [Nat.add_comm, Nat.add_mul_div_right _ _ hr, Nat.div_eq_of_lt hmod, Nat.zero_add]
    have hrest : (s * r + c % r) % r = c % r := by
      rw [Nat.add_comm, Nat.add_mul_mod_self_right, Nat.mod_mod]
    simp only [shuffleSource, hdiv, hrest]
    rw [Nat.mul_comm, Nat.div_add_mod]
  · rintro ⟨c, q⟩ ⟨hc, hq⟩
    have hmod : q % r < r := Nat.mod_lt q hr
    have hrow : (c + 1) * r ≤ outC * r := Nat.mul_le_mul_right r hc
    rw [Nat.succ_mul] at hrow
    exact ⟨show c * r + q % r < outC * r by omega,
      Nat.div_lt_of_lt_mul (Nat.mul_comm inSP r ▸ hq)⟩
  · rintro ⟨c, s⟩ ⟨hc, hs⟩
    have hmod : c % r < r := Nat.mod_lt c hr
    have hrow : (s + 1) * r ≤ inSP * r := Nat.mul_le_mul_right r hs
    rw [Nat.succ_mul] at hrow
    exact ⟨Nat.div_lt_of_lt_mul (Nat.mul_comm outC r ▸ hc),
      show s * r + c % r < inSP * r by omega⟩

end Shuffle

/-! ## The fragment -/

section Fragment

variable {K : Type} [Add K] [Mul K] [LT K] [DecidableLT K]

/-- The fragment computes the three operations. -/
lemma eval_pixelShuffle {outC inSP r : ℕ} {i o : String} {f : MilFragment K}
    (h : pixelShuffleFragment outC inSP r i o = .ok f) (hi : i ∉ f.body.map (·.var))
    {x : MilTensor K} (hx : x.dims = [1, outC * r, 1, inSP]) :
    f.eval i (.Floats x) = some (.Floats (shuffle outC inSP r x)) := by
  obtain ⟨val, hval, hsolve, heval⟩ :=
    (pixelShuffleFragment_emitted h).eval_eq hi (.Floats x)
  unfold pixelShuffleFragment at h
  split_ifs at h
  obtain ⟨-, rfl⟩ := checked_eq_ok_iff.mp h
  simp only [List.forall_mem_cons] at hsolve
  obtain ⟨hsh₁, hr₁, hpm, htr, hsh₂, hout, -⟩ := hsolve
  rw [const_sem] at hsh₁ hpm hsh₂
  rw [op_sem] at hr₁ htr hout
  simp only [const_var, op_var, op_operands, arg, List.flatMap_cons, List.flatMap_nil, var_names,
    List.append_nil, List.singleton_append, List.map_cons, List.map_nil]
    at hsh₁ hr₁ hpm htr hsh₂ hout
  have hs₁ : val (o ++ "_" ++ "sh1") = some (.Ints [1, outC, r, inSP]) := by
    rw [hsh₁]
    rfl
  have hs₂ : val (o ++ "_" ++ "sh2") = some (.Ints [1, outC, 1, inSP * r]) := by
    rw [hsh₂]
    rfl
  have hp : val (o ++ "_" ++ "pm") = some (.Ints [0, 1, 3, 2]) := by
    rw [hpm]
    rfl
  have h₁ : val (o ++ "_" ++ "r1") = some (.Floats (x.reshape [1, outC, r, inSP])) := by
    rw [hr₁, hs₁, hval]
    simp [opMeaning, hx, MilVal.hasType, MilTensor.reshape]
    ring
  have h₂ : val (o ++ "_" ++ "tr") =
      some (.Floats ((x.reshape [1, outC, r, inSP]).transpose [0, 1, 3, 2])) := by
    rw [htr, hp, h₁]
    simp [opMeaning, MilVal.hasType, MilTensor.reshape, MilTensor.transpose]
  have hsp : ((inSP : ℤ) * r).toNat = inSP * r := by rw [← Nat.cast_mul, Int.toNat_natCast]
  rw [heval, hout, hs₂, h₂]
  simp [opMeaning, MilVal.hasType, shuffle, MilTensor.reshape, MilTensor.transpose, tensorType,
    shapeOf, hsp]

/-- **Pixel shuffle is depth-to-space.**  For every factor, every number of channels and
positions, and every operand of shape `[1, C * r, 1, S]`, the emitted fragment has a value; its
element in channel `c` at `s * r + k` is the operand's in channel `c * r + k` at `s`; every element
of the operand goes to one place; and all three declared tensor types have the same number of
elements. -/
theorem pixel_shuffle_depth_to_space {outC inSP r : ℤ} {i o : String} {f : MilFragment K}
    (h : pixelShuffleFragment outC inSP r i o = .ok f) (hi : i ∉ f.body.map (·.var))
    {x : MilTensor K} (hx : x.dims.map Int.ofNat = [1, outC * r, 1, inSP]) :
    ∃ y, f.eval i (.Floats x) = some (.Floats y) ∧
      y.dims.map Int.ofNat = [1, outC, 1, inSP * r] ∧
      (∀ c s k : ℕ, c < outC → s < inSP → k < r →
        y.elem [0, c, 0, s * r.toNat + k] = x.elem [0, c * r.toNat + k, 0, s]) ∧
      (∀ c q : ℕ, c < outC → q < inSP * r →
        y.elem [0, c, 0, q] =
          x.elem [0, (shuffleSource r.toNat (c, q)).1, 0, (shuffleSource r.toNat (c, q)).2]) ∧
      Set.BijOn (shuffleSource r.toNat) {p | (p.1 : ℤ) < outC ∧ (p.2 : ℤ) < inSP * r}
        {p | (p.1 : ℤ) < outC * r ∧ (p.2 : ℤ) < inSP} ∧
      ∀ s ∈ f.body, (∃ name args, s.rhs = .Op name args) → s.type.elements = outC * r * inSP := by
  have hr : 0 < r := by
    by_contra hr
    rw [pixelShuffleFragment, if_pos (not_lt.mp hr)] at h
    cases h
  obtain ⟨hinC, hinSP⟩ : 0 < outC * r ∧ 0 < inSP := by
    rw [pixelShuffleFragment, if_neg (not_le.mpr hr)] at h
    have hvalid := (checked_eq_ok_iff.mp h).1 (shapeOf (outC * r) inSP) (by simp)
    exact ⟨hvalid.channels_pos, hvalid.seq_pos⟩
  have hC : 0 < outC := (mul_pos_iff_of_pos_right hr).mp hinC
  lift outC to ℕ using hC.le
  lift inSP to ℕ using hinSP.le
  lift r to ℕ using hr.le
  have hrn : 0 < r := Int.natCast_pos.mp hr
  have hdims : x.dims = [1, outC * r, 1, inSP] := by
    have hinj : Function.Injective (List.map Int.ofNat) :=
      List.map_injective_iff.mpr fun a b => Int.ofNat_inj.mp
    refine hinj (hx.trans ?_)
    simp
  refine ⟨shuffle outC inSP r x, eval_pixelShuffle h hi hdims, ?_, ?_, ?_, ?_, ?_⟩
  · simp [shuffle, MilTensor.reshape]
  · intro c s k hc hs hk
    exact shuffle_elem hdims (Int.ofNat_lt.mp hc) (Int.ofNat_lt.mp hs) (Int.ofNat_lt.mp hk)
  · intro c q hc hq
    have hq' : q < inSP * r := by exact_mod_cast hq
    have helem := shuffle_elem hdims (Int.ofNat_lt.mp hc)
      (Nat.div_lt_of_lt_mul (Nat.mul_comm inSP r ▸ hq')) (Nat.mod_lt q hrn)
    rwa [Nat.mul_comm (q / r), Nat.div_add_mod] at helem
  · have hbij := @shuffleSource_bijOn outC inSP r hrn
    have hin : {p : ℕ × ℕ | (p.1 : ℤ) < (outC : ℤ) ∧ (p.2 : ℤ) < (inSP : ℤ) * (r : ℤ)} =
        {p | p.1 < outC ∧ p.2 < inSP * r} := by
      ext p
      simp only [Set.mem_ofPred_eq, ← Nat.cast_mul, Nat.cast_lt]
    have hout : {p : ℕ × ℕ | (p.1 : ℤ) < (outC : ℤ) * (r : ℤ) ∧ (p.2 : ℤ) < (inSP : ℤ)} =
        {p | p.1 < outC * r ∧ p.2 < inSP} := by
      ext p
      simp only [Set.mem_ofPred_eq, ← Nat.cast_mul, Nat.cast_lt]
    rw [hin, hout]
    exact hbij
  · unfold pixelShuffleFragment at h
    split_ifs at h
    obtain ⟨-, rfl⟩ := checked_eq_ok_iff.mp h
    simp only [List.forall_mem_cons]
    simp [const, op, tensorType, shapeOf, MilType.elements]
    constructor <;> ring

end Fragment

/-- Two channels of sixteen positions. -/
def twoChannels : MilTensor ℚ := ⟨[1, 2, 1, 16], fun idx => 100 * idx.getD 1 0 + idx.getD 3 0⟩

theorem pixel_shuffle_depth_to_space_two : ∃ (f : MilFragment ℚ) (y : MilTensor ℚ),
    pixelShuffleFragment 1 16 2 "t0" "t1" = .ok f ∧
    f.eval "t0" (.Floats twoChannels) = some (.Floats y) ∧
    y.elem [0, 0, 0, 7] = twoChannels.elem [0, 1, 0, 3] := by
  have hok : pixelShuffleFragment (F := ℚ) 1 16 2 "t0" "t1" = .ok _ := rfl
  obtain ⟨y, hy, -, helem, -⟩ := pixel_shuffle_depth_to_space hok (by decide)
    (show twoChannels.dims.map Int.ofNat = [1, 1 * 2, 1, 16] from rfl)
  exact ⟨_, y, hok, hy, helem 0 3 1 (by norm_num) (by norm_num) (by norm_num)⟩

end Libane
