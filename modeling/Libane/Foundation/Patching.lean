import Mathlib

/-!
# Patching lists

Overwriting a part of a list, and replacing the occurrences of a pattern from left to right.

* `slice`, `put` — a part of a list, and a list with other elements in its place;
  `getElem?_put` is their specification.
* `replaceFrom` — search and replace; behind an occurrence the search goes on after it.
* `getElem?_replaceFrom` — every element stays or belongs to an occurrence of the pattern.
* `getElem?_replaceFrom_of_occurs` — an occurrence that overlaps none before it is replaced.
-/

namespace Patching

variable {α : Type*} {a b new old : List α} {off i w : ℕ}

/-! ## Parts of a list -/

/-- The `w` elements from `off` on. -/
def slice (off w : ℕ) (b : List α) : List α := (b.drop off).take w

/-- The list with `new` in the place of what stands at `off`. -/
def put (off : ℕ) (new b : List α) : List α := b.take off ++ new ++ b.drop (off + new.length)

lemma length_slice (h : off + w ≤ b.length) : (slice off w b).length = w := by
  rw [slice, List.length_take, List.length_drop]
  omega

lemma getElem?_slice (k : ℕ) : (slice off w b)[k]? = if k < w then b[off + k]? else none := by
  rw [slice, List.getElem?_take]
  simp

@[simp] lemma length_put (h : off + new.length ≤ b.length) : (put off new b).length = b.length := by
  simp only [put, List.length_append, List.length_take, List.length_drop]
  omega

/-- **What is written.**  The new elements stand at their place, and the others stay. -/
theorem getElem?_put (h : off + new.length ≤ b.length) (k : ℕ) :
    (put off new b)[k]? = if off ≤ k ∧ k < off + new.length then new[k - off]? else b[k]? := by
  have htake : (b.take off).length = off := by simp; omega
  rw [put, List.append_assoc]
  by_cases hlt : k < off
  · rw [List.getElem?_append_left (by omega), List.getElem?_take, if_pos hlt, if_neg (by omega)]
  rw [List.getElem?_append_right (by omega), htake]
  by_cases hin : k < off + new.length
  · rw [List.getElem?_append_left (by omega), if_pos ⟨by omega, hin⟩]
  · rw [List.getElem?_append_right (by omega), if_neg (by omega), List.getElem?_drop]
    congr 1
    omega

/-- The middle one of three parts. -/
lemma slice_append {c : List α} (ha : a.length = off) (hb : b.length = w) :
    slice off w (a ++ b ++ c) = b := by
  rw [slice, List.append_assoc, ← ha, List.drop_left, ← hb, List.take_left]

/-- A part behind a first piece. -/
lemma slice_skip (m : ℕ) (ha : a.length = m) : slice (off + m) w (a ++ b) = slice off w b := by
  rw [slice, slice, ← ha, List.drop_append, List.drop_eq_nil_of_le (by omega), List.nil_append,
    Nat.add_sub_cancel]

/-- A part that is the first piece. -/
lemma slice_head (ha : a.length = w) : slice 0 w (a ++ b) = a := by
  rw [slice, List.drop_zero, ← ha, List.take_left]

/-- The elements of a part. -/
lemma getElem?_of_slice_eq (h : slice off w b = new) {k : ℕ} (hk : k < w) :
    b[off + k]? = new[k]? := by
  rw [← h, getElem?_slice, if_pos hk]

/-- Equal elements make equal parts. -/
lemma slice_congr (h : ∀ k, off ≤ k → k < off + w → a[k]? = b[k]?) :
    slice off w a = slice off w b := by
  refine List.ext_getElem? fun k => ?_
  rw [getElem?_slice, getElem?_slice]
  split_ifs with hk
  · exact h _ (by omega) (by omega)
  · rfl

/-- Parts that agree up to their last element, and there. -/
lemma slice_succ_congr (h : slice off w a = slice off w b) (hlast : a[off + w]? = b[off + w]?) :
    slice off (w + 1) a = slice off (w + 1) b := by
  refine slice_congr fun k hk hk' => ?_
  rcases Nat.lt_or_ge k (off + w) with hlt | hge
  · have hk := getElem?_of_slice_eq h (k := k - off) (by omega)
    rwa [getElem?_slice, if_pos (by omega), Nat.add_sub_cancel' (by omega)] at hk
  · obtain rfl : k = off + w := by omega
    exact hlast

/-- A part reads what was written there. -/
lemma slice_put_self (h : off + new.length ≤ b.length) :
    slice off new.length (put off new b) = new := by
  refine List.ext_getElem? fun k => ?_
  rw [getElem?_slice]
  split_ifs with hk
  · rw [getElem?_put h, if_pos (by omega), Nat.add_sub_cancel_left]
  · exact (List.getElem?_eq_none (by omega)).symm

/-- A part away from what was written stays. -/
lemma slice_put_of_disjoint (h : off + new.length ≤ b.length)
    (hd : off + new.length ≤ i ∨ i + w ≤ off) : slice i w (put off new b) = slice i w b := by
  refine slice_congr fun k hk hk' => ?_
  rw [getElem?_put h, if_neg (by omega)]

/-- Writing what already stands there changes nothing. -/
lemma put_slice_self (h : off + w ≤ b.length) : put off (slice off w b) b = b := by
  have hlen := length_slice h
  refine List.ext_getElem? fun k => ?_
  rw [getElem?_put (by omega), getElem?_slice, hlen]
  split_ifs with h₁ h₂
  · congr 1
    omega
  · omega
  · rfl

/-! ## Search and replace -/

section Replace

variable [DecidableEq α]

/-- Search from `i` on for occurrences of `old` that end at `stop` at the latest, for at most `n`
rounds, and write `new` in their place. -/
def replaceFrom (old new : List α) (stop : ℕ) : ℕ → ℕ → List α → List α
  | 0, _, b => b
  | n + 1, i, b =>
      if i + old.length ≤ stop then
        if slice i old.length b = old then
          replaceFrom old new stop n (i + old.length) (put i new b)
        else replaceFrom old new stop n (i + 1) b
      else b

variable {stop : ℕ} (hlen : new.length = old.length)

include hlen

lemma length_replaceFrom : ∀ {n i : ℕ} {b : List α}, stop ≤ b.length →
    (replaceFrom old new stop n i b).length = b.length
  | 0, _, _, _ => rfl
  | n + 1, i, b, hb => by
      rw [replaceFrom]
      split_ifs with hi hocc
      · have hput : (put i new b).length = b.length := length_put (by omega)
        rw [length_replaceFrom (by omega), hput]
      · exact length_replaceFrom hb
      · rfl

/-- Nothing changes before the place where the search starts. -/
lemma getElem?_replaceFrom_of_lt : ∀ {n i : ℕ} {b : List α}, stop ≤ b.length → ∀ {k : ℕ}, k < i →
    (replaceFrom old new stop n i b)[k]? = b[k]?
  | 0, _, _, _, _, _ => rfl
  | n + 1, i, b, hb, k, hk => by
      rw [replaceFrom]
      split_ifs with hi hocc
      · have hput : (put i new b).length = b.length := length_put (by omega)
        rw [getElem?_replaceFrom_of_lt (by omega) (by omega), getElem?_put (by omega),
          if_neg (by omega)]
      · exact getElem?_replaceFrom_of_lt hb (by omega)
      · rfl

/-- **Search and replace.**  Every element stays, or it belongs to an occurrence of the pattern in
the list before the search. -/
theorem getElem?_replaceFrom : ∀ {n i : ℕ} {b : List α}, stop ≤ b.length → ∀ k : ℕ,
    (replaceFrom old new stop n i b)[k]? = b[k]? ∨
      ∃ j, i ≤ j ∧ j ≤ k ∧ k < j + old.length ∧ j + old.length ≤ stop ∧
        slice j old.length b = old ∧ (replaceFrom old new stop n i b)[k]? = new[k - j]?
  | 0, _, _, _, _ => Or.inl rfl
  | n + 1, i, b, hb, k => by
      rw [replaceFrom]
      split_ifs with hi hocc
      · have hput : (put i new b).length = b.length := length_put (by omega)
        rcases getElem?_replaceFrom (n := n) (i := i + old.length) (b := put i new b) (by omega) k
          with hk | ⟨j, hij, hjk, hkj, hstop, hj, hk⟩
        · rw [hk, getElem?_put (by omega)]
          split_ifs with hin
          · exact Or.inr ⟨i, le_rfl, hin.1, by omega, hi, hocc, rfl⟩
          · exact Or.inl rfl
        · refine Or.inr ⟨j, by omega, hjk, hkj, hstop, ?_, hk⟩
          rwa [slice_put_of_disjoint (by omega) (Or.inl (by omega))] at hj
      · rcases getElem?_replaceFrom (n := n) (i := i + 1) (b := b) hb k
          with hk | ⟨j, hij, hrest⟩
        · exact Or.inl hk
        · exact Or.inr ⟨j, by omega, hrest⟩
      · exact Or.inl rfl

/-- **An occurrence is replaced** unless it overlaps an earlier one. -/
theorem getElem?_replaceFrom_of_occurs {j : ℕ} (hpos : 0 < old.length)
    (hstop : j + old.length ≤ stop) : ∀ {n i : ℕ} {b : List α}, stop ≤ b.length → i ≤ j →
    j < i + n → slice j old.length b = old →
    (∀ l, i ≤ l → l < j → j < l + old.length → slice l old.length b ≠ old) →
    ∀ {k : ℕ}, j ≤ k → k < j + old.length →
      (replaceFrom old new stop n i b)[k]? = new[k - j]?
  | 0, i, _, _, hij, hjn, _, _, _, _, _ => by omega
  | n + 1, i, b, hb, hij, hjn, hocc, hfree, k, hjk, hkj => by
      have hi : i + old.length ≤ stop := by omega
      rw [replaceFrom, if_pos hi]
      rcases Nat.eq_or_lt_of_le hij with rfl | hlt
      · have hput : (put i new b).length = b.length := length_put (by omega)
        rw [if_pos hocc, getElem?_replaceFrom_of_lt hlen (by omega) hkj, getElem?_put (by omega),
          if_pos ⟨hjk, by omega⟩]
      · split_ifs with hhere
        · -- an occurrence before `j` ends before it
          have hend : i + old.length ≤ j := by
            by_contra hover
            exact hfree i le_rfl hlt (by omega) hhere
          have hput : (put i new b).length = b.length := length_put (by omega)
          have hsame : ∀ l, i + old.length ≤ l →
              slice l old.length (put i new b) = slice l old.length b := fun l hl =>
            slice_put_of_disjoint (by omega) (Or.inl (by omega))
          refine getElem?_replaceFrom_of_occurs hpos hstop (by omega) hend (by omega)
            ((hsame j hend).trans hocc) (fun l hl hlj hjl => ?_) hjk hkj
          rw [hsame l hl]
          exact hfree l (by omega) hlj hjl
        · exact getElem?_replaceFrom_of_occurs hpos hstop hb hlt (by omega) hocc
            (fun l hl => hfree l (by omega)) hjk hkj

end Replace

end Patching
