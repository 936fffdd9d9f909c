import Mathlib.Algebra.Order.Field.Basic
import Mathlib.Tactic.FieldSimp
import Mathlib.Tactic.Linarith
import Mathlib.Tactic.Positivity
import Mathlib.Topology.Algebra.Ring.Basic
import Mathlib.Topology.Order.OrderClosed

/-!
# Linear interpolation at equally spaced points

Samples `s 0, …, s N` at the points `x₀, x₀ + dx, …`, and the function that is linear between
neighbouring points and goes on linearly outside of them.

* `point`, `secant` — the points, and the lines through neighbouring samples.
* `Interpolates` — what it means to be the interpolant.
* `chain` — nested selections, each asking whether the argument lies below the end of its segment.
* `interpolates_chain`, `continuous_chain` — the chain is the interpolant, and continuous.
-/

namespace Interpolation

variable {K : Type*} [Field K]

/-- The points. -/
def point (x₀ dx : K) (k : ℕ) : K := x₀ + k * dx

/-- The line through the samples at the points `k` and `k + 1`. -/
def secant (x₀ dx : K) (s : ℕ → K) (k : ℕ) (x : K) : K :=
  s k + (s (k + 1) - s k) * ((x - point x₀ dx k) / dx)

variable {x₀ dx : K} {s : ℕ → K} {k : ℕ}

lemma secant_left : secant x₀ dx s k (point x₀ dx k) = s k := by
  simp [secant]

lemma secant_right (hdx : dx ≠ 0) : secant x₀ dx s k (point x₀ dx (k + 1)) = s (k + 1) := by
  have hone : (point x₀ dx (k + 1) - point x₀ dx k) / dx = 1 := by
    rw [point, point, Nat.cast_succ]
    field_simp
    ring
  rw [secant, hone]
  ring

variable [LinearOrder K]

/-- Linear on each of the `N` segments, and outside as on the nearest one. -/
structure Interpolates (x₀ dx : K) (s : ℕ → K) (N : ℕ) (φ : K → K) : Prop where
  inside : ∀ k < N, ∀ x, point x₀ dx k ≤ x → x ≤ point x₀ dx (k + 1) → φ x = secant x₀ dx s k x
  below : ∀ x < point x₀ dx 0, φ x = secant x₀ dx s 0 x
  above : ∀ x > point x₀ dx N, φ x = secant x₀ dx s (N - 1) x

/-- Selections over the segments `k, …, k + m`: the first one that ends beyond the argument. -/
def chain (x₀ dx : K) (s : ℕ → K) : ℕ → ℕ → K → K
  | k, 0, x => secant x₀ dx s k x
  | k, m + 1, x =>
      if x < point x₀ dx (k + 1) then secant x₀ dx s k x else chain x₀ dx s (k + 1) m x

variable {N : ℕ} {φ : K → K}

/-- An interpolant takes the samples at the points. -/
lemma Interpolates.at_point [IsStrictOrderedRing K] (h : Interpolates x₀ dx s (N + 1) φ)
    (hdx : 0 < dx) (hk : k ≤ N + 1) : φ (point x₀ dx k) = s k := by
  have hstep : ∀ j, point x₀ dx j ≤ point x₀ dx (j + 1) := fun j => by
    rw [point, point, Nat.cast_succ]
    linarith
  cases k with
  | zero => rw [h.inside 0 N.succ_pos _ le_rfl (hstep 0), secant_left]
  | succ j => rw [h.inside j hk _ (hstep j) le_rfl, secant_right hdx.ne']

section Chain

variable [IsStrictOrderedRing K]

lemma point_lt_point (hdx : 0 < dx) {i j : ℕ} (h : i < j) : point x₀ dx i < point x₀ dx j := by
  have hcast : (i : K) < j := Nat.cast_lt.mpr h
  have hmul := mul_lt_mul_of_pos_right hcast hdx
  rw [point, point]
  linarith

lemma point_le_point (hdx : 0 < dx) {i j : ℕ} (h : i ≤ j) : point x₀ dx i ≤ point x₀ dx j := by
  rcases h.eq_or_lt with rfl | h
  · exact le_rfl
  · exact (point_lt_point hdx h).le

/-- **The right segment wins**, also at a threshold, where both neighbours would do. -/
lemma chain_eq (hdx : 0 < dx) {m : ℕ} : ∀ {k j : ℕ} {x : K}, k ≤ j → j ≤ k + m →
    (j = k ∨ point x₀ dx j ≤ x) → (j = k + m ∨ x ≤ point x₀ dx (j + 1)) →
    chain x₀ dx s k m x = secant x₀ dx s j x := by
  induction m with
  | zero =>
      intro k j x hkj hjm _ _
      rw [chain, Nat.le_antisymm hjm hkj, Nat.add_zero]
  | succ m ih =>
      intro k j x hkj hjm hleft hright
      rw [chain]
      split_ifs with hlt
      · -- the first segment: no later point is below `x`
        have hjk : j = k := by
          by_contra hne
          have hle : point x₀ dx (k + 1) ≤ point x₀ dx j := point_le_point hdx (by omega)
          exact absurd ((hle.trans (hleft.resolve_left hne)).trans_lt hlt) (lt_irrefl _)
        rw [hjk]
      · rw [not_lt] at hlt
        by_cases hjk : j = k
        · -- the tie at the end of the first segment
          subst hjk
          obtain rfl : x = point x₀ dx (j + 1) :=
            le_antisymm (hright.resolve_left (by omega)) hlt
          rw [secant_right hdx.ne', ih le_rfl (by omega) (Or.inl rfl)
            (Or.inr (point_le_point hdx (by omega))), secant_left]
        · refine ih (by omega) (by omega) (Or.inr (hleft.resolve_left hjk)) ?_
          exact hright.imp_left fun h => by omega

/-- **The chain is the interpolant.** -/
theorem interpolates_chain (hdx : 0 < dx) {m : ℕ} :
    Interpolates x₀ dx s (m + 1) (chain x₀ dx s 0 m) where
  inside k hk x hleft hright := chain_eq hdx (Nat.zero_le k) (by omega) (Or.inr hleft)
    (Or.inr hright)
  below x hx := by
    refine chain_eq hdx le_rfl (Nat.zero_le _) (Or.inl rfl) (Or.inr ?_)
    exact hx.le.trans (point_le_point hdx (Nat.zero_le _))
  above x hx := by
    refine chain_eq hdx (Nat.zero_le _) (by omega) (Or.inr ?_) (Or.inl (by omega))
    exact (point_le_point hdx (by omega)).trans hx.le

variable [TopologicalSpace K] [OrderClosedTopology K] [IsTopologicalRing K]

omit [IsStrictOrderedRing K] [OrderClosedTopology K] [LinearOrder K] in
lemma continuous_secant : Continuous (secant x₀ dx s k) := by
  unfold secant
  simp only [div_eq_mul_inv]
  fun_prop

/-- **The chain is continuous.** -/
theorem continuous_chain (hdx : 0 < dx) : ∀ (k m : ℕ), Continuous (chain x₀ dx s k m)
  | k, 0 => continuous_secant
  | k, m + 1 => by
      have hmeet : ∀ x, point x₀ dx (k + 1) = x →
          chain x₀ dx s (k + 1) m x = secant x₀ dx s k x := by
        rintro x rfl
        rw [secant_right hdx.ne', chain_eq hdx le_rfl (by omega) (Or.inl rfl)
          (Or.inr (point_le_point hdx (by omega))), secant_left]
      have hseg : Continuous (secant x₀ dx s k) := continuous_secant
      have hglued := Continuous.if_le (continuous_chain hdx (k + 1) m) hseg continuous_const
        continuous_id hmeet
      refine hglued.congr fun x => ?_
      show (if point x₀ dx (k + 1) ≤ x then chain x₀ dx s (k + 1) m x
        else secant x₀ dx s k x) = _
      rw [chain]
      by_cases hx : x < point x₀ dx (k + 1)
      · rw [if_pos hx, if_neg (not_le.mpr hx)]
      · rw [if_neg hx, if_pos (not_lt.mp hx)]

end Chain

end Interpolation
