import Mathlib.Algebra.BigOperators.Group.List.Basic
import Mathlib.Data.List.Forall2
import Mathlib.Tactic.Ring

/-!
# Row-major indices

An array of dimensions `[d₀, …, dₖ]` is stored with the last index running fastest.

* `ravel`, `unravel` — from an index to its position and back; `unravel_ravel` and
  `ravel_unravel` say that they are inverse to each other.
* `indices` — all indices, as nested loops visit them; `map_ravel_indices`: in the order of their
  positions, each position once.
-/

namespace RowMajor

/-- The position of an index. -/
def ravel : List ℕ → List ℕ → ℕ
  | _ :: ds, i :: is => i * ds.prod + ravel ds is
  | _, _ => 0

/-- The index of a position. -/
def unravel : List ℕ → ℕ → List ℕ
  | [], _ => []
  | _ :: ds, k => k / ds.prod :: unravel ds (k % ds.prod)

/-- Every component of the index is below its dimension. -/
def InBounds (dims idx : List ℕ) : Prop := List.Forall₂ (· < ·) idx dims

/-- The indices that nested loops over the dimensions visit. -/
def indices : List ℕ → List (List ℕ)
  | [] => [[]]
  | d :: ds => (List.range d).flatMap fun i => (indices ds).map (i :: ·)

section Positions

variable {dims idx : List ℕ} {d i k : ℕ}

@[simp] lemma inBounds_nil : InBounds [] idx ↔ idx = [] := List.forall₂_nil_right_iff

@[simp] lemma inBounds_cons : InBounds (d :: dims) (i :: idx) ↔ i < d ∧ InBounds dims idx :=
  List.forall₂_cons

lemma InBounds.length_eq (h : InBounds dims idx) : idx.length = dims.length :=
  List.Forall₂.length_eq h

/-- Positions lie in the array. -/
lemma ravel_lt : ∀ {dims idx : List ℕ}, InBounds dims idx → ravel dims idx < dims.prod
  | [], idx, h => by
      rw [inBounds_nil.mp h]
      exact Nat.one_pos
  | d :: ds, [], h => by cases h
  | d :: ds, i :: is, h => by
      obtain ⟨hi, his⟩ := inBounds_cons.mp h
      have hrest := ravel_lt his
      have hrow : (i + 1) * ds.prod ≤ d * ds.prod := Nat.mul_le_mul_right _ hi
      rw [Nat.succ_mul] at hrow
      rw [ravel, List.prod_cons]
      omega

/-- Positions of the array have indices in bounds. -/
lemma inBounds_unravel : ∀ {dims : List ℕ} {k : ℕ}, k < dims.prod →
    InBounds dims (unravel dims k)
  | [], _, _ => inBounds_nil.mpr rfl
  | d :: ds, k, h => by
      rw [List.prod_cons] at h
      have hpos : 0 < ds.prod := Nat.pos_of_ne_zero fun h0 => by
        rw [h0, Nat.mul_zero] at h
        exact Nat.not_lt_zero k h
      rw [unravel, inBounds_cons]
      exact ⟨Nat.div_lt_of_lt_mul (Nat.mul_comm d _ ▸ h), inBounds_unravel (Nat.mod_lt k hpos)⟩

/-- **From a position to its index and back.** -/
theorem ravel_unravel : ∀ {dims : List ℕ} {k : ℕ}, k < dims.prod →
    ravel dims (unravel dims k) = k
  | [], k, h => (Nat.lt_one_iff.mp h).symm
  | d :: ds, k, h => by
      rw [List.prod_cons] at h
      have hpos : 0 < ds.prod := Nat.pos_of_ne_zero fun h0 => by
        rw [h0, Nat.mul_zero] at h
        exact Nat.not_lt_zero k h
      rw [unravel, ravel, ravel_unravel (Nat.mod_lt k hpos), Nat.mul_comm]
      exact Nat.div_add_mod k ds.prod

/-- **From an index to its position and back.** -/
theorem unravel_ravel : ∀ {dims idx : List ℕ}, InBounds dims idx →
    unravel dims (ravel dims idx) = idx
  | [], idx, h => by rw [inBounds_nil.mp h, unravel]
  | d :: ds, [], h => by cases h
  | d :: ds, i :: is, h => by
      obtain ⟨-, his⟩ := inBounds_cons.mp h
      have hlt := ravel_lt his
      have hpos : 0 < ds.prod := Nat.zero_lt_of_lt hlt
      rw [ravel, unravel, Nat.add_comm, Nat.add_mul_div_right _ _ hpos, Nat.div_eq_of_lt hlt,
        Nat.zero_add, Nat.add_mul_mod_self_right, Nat.mod_eq_of_lt hlt, unravel_ravel his]

/-! ## Loops -/

lemma mem_indices : ∀ {dims idx : List ℕ}, idx ∈ indices dims ↔ InBounds dims idx
  | [], idx => by rw [indices, List.mem_singleton, inBounds_nil]
  | d :: ds, [] => by
      rw [indices]
      refine iff_of_false ?_ fun h => by cases h
      simp
  | d :: ds, i :: is => by
      rw [indices, inBounds_cons, ← mem_indices]
      simp

/-- A range cut into blocks of one length. -/
lemma range_mul (d m : ℕ) :
    List.range (d * m) = (List.range d).flatMap fun i => (List.range m).map (i * m + ·) := by
  induction d with
  | zero => simp
  | succ d ih =>
      rw [Nat.succ_mul, List.range_add, ih, List.range_succ, List.flatMap_append]
      simp

/-- **Nested loops visit the positions in order.** -/
theorem map_ravel_indices : ∀ dims : List ℕ, (indices dims).map (ravel dims) = List.range dims.prod
  | [] => rfl
  | d :: ds => by
      rw [indices, List.prod_cons, range_mul, List.map_flatMap]
      refine congrArg (List.flatMap · _) (funext fun i => ?_)
      rw [← map_ravel_indices ds, List.map_map, List.map_map]
      rfl

lemma length_indices (dims : List ℕ) : (indices dims).length = dims.prod := by
  rw [← List.length_map (f := ravel dims), map_ravel_indices, List.length_range]

/-- What the loops compute for an index stands at its position. -/
lemma getElem?_map_indices {α : Type*} {f : List ℕ → α} (h : InBounds dims idx) :
    ((indices dims).map f)[ravel dims idx]? = some (f idx) := by
  have hlt : ravel dims idx < (indices dims).length := by
    rw [length_indices]
    exact ravel_lt h
  have hpos : ravel dims ((indices dims)[ravel dims idx]) = ravel dims idx := by
    have hmap : ((indices dims).map (ravel dims))[ravel dims idx]? = some (ravel dims idx) := by
      rw [map_ravel_indices, List.getElem?_range (ravel_lt h)]
    rw [List.getElem?_map, List.getElem?_eq_getElem hlt, Option.map_some] at hmap
    exact Option.some.inj hmap
  have hin : InBounds dims ((indices dims)[ravel dims idx]) :=
    mem_indices.mp (List.getElem_mem hlt)
  have hidx : (indices dims)[ravel dims idx] = idx := by
    rw [← unravel_ravel hin, hpos, unravel_ravel h]
  rw [List.getElem?_map, List.getElem?_eq_getElem hlt, hidx, Option.map_some]

end Positions

end RowMajor
