import Mathlib.Data.List.Basic
import Mathlib.Data.List.Induction
import Mathlib.Data.List.Sort

/-!
# Collecting first occurrences

A list of different elements is filled from a stream, skipping what it holds already.

* `collect` — the filling, `FirstOccurrences` what a complete result is: every element of the
  stream once, in the order of its first occurrence.
* `firstOccurrences_iff` — `collect` is the only way to a complete result.
* `collect_leaders_iff` — some elements of a stream are leaders, the others follow them.  The
  leaders alone fill the list as the whole stream does if and only if every new follower is also
  the next new leader.
-/

namespace Libane

variable {α : Type*} [DecidableEq α]

/-- One element more, unless it is there. -/
def collectOne (names : List α) (x : α) : List α := if x ∈ names then names else names ++ [x]

/-- The elements of a stream, added one by one. -/
def collect (names xs : List α) : List α := xs.foldl collectOne names

section Collect

variable {names xs ys : List α} {a b x : α}

lemma collectOne_of_mem (h : x ∈ names) : collectOne names x = names := if_pos h

lemma collectOne_of_notMem (h : x ∉ names) : collectOne names x = names ++ [x] := if_neg h

@[simp] lemma mem_collectOne : a ∈ collectOne names x ↔ a ∈ names ∨ a = x := by
  unfold collectOne
  split_ifs with h
  · refine ⟨Or.inl, ?_⟩
    rintro (ha | rfl)
    · exact ha
    · exact h
  · simp

@[simp] lemma collect_nil : collect names [] = names := rfl

@[simp] lemma collect_cons : collect names (x :: xs) = collect (collectOne names x) xs := rfl

lemma collect_append : collect names (xs ++ ys) = collect (collect names xs) ys :=
  List.foldl_append

lemma mem_collect : a ∈ collect names xs ↔ a ∈ names ∨ a ∈ xs := by
  induction xs generalizing names with
  | nil => simp
  | cons x xs ih => rw [collect_cons, ih, mem_collectOne, List.mem_cons, or_assoc]

lemma prefix_collect : names <+: collect names xs := by
  induction xs generalizing names with
  | nil => exact List.prefix_refl names
  | cons x xs ih =>
      refine List.IsPrefix.trans ?_ ih
      unfold collectOne
      split_ifs
      · exact List.prefix_refl names
      · exact List.prefix_append names [x]

/-- The next element of the list is the first new element of the stream. -/
lemma find?_of_prefix_collect (h : names ++ [b] <+: collect names xs) :
    xs.find? (· ∉ names) = some b := by
  induction xs with
  | nil => exact absurd h.length_le (by simp)
  | cons x xs ih =>
      rw [collect_cons] at h
      by_cases hx : x ∈ names
      · rw [collectOne_of_mem hx] at h
        rw [List.find?_cons_of_neg (by simpa using hx)]
        exact ih h
      · rw [collectOne_of_notMem hx] at h
        have hsame : names ++ [b] = names ++ [x] :=
          (List.prefix_of_prefix_length_le h prefix_collect (by simp)).eq_of_length (by simp)
        have hbx : b = x := List.singleton_injective (List.append_cancel_left hsame)
        rw [List.find?_cons_of_pos (by simpa using hx), hbx]

/-- The first new element of a stream may be added at once. -/
lemma collect_eq_of_find? (h : xs.find? (· ∉ names) = some b) :
    collect names xs = collect (names ++ [b]) xs := by
  induction xs with
  | nil => cases h
  | cons x xs ih =>
      rw [collect_cons, collect_cons]
      by_cases hx : x ∈ names
      · rw [List.find?_cons_of_neg (by simpa using hx)] at h
        rw [collectOne_of_mem hx, collectOne_of_mem (List.mem_append_left [b] hx)]
        exact ih h
      · rw [List.find?_cons_of_pos (by simpa using hx), Option.some.injEq] at h
        rw [collectOne_of_notMem hx, collectOne_of_mem (by simp [h]), h]

end Collect

/-! ## Complete results -/

/-- `names` holds every element of `xs`, once, in the order of first occurrence, and nothing
else. -/
structure FirstOccurrences (names xs : List α) : Prop where
  nodup : names.Nodup
  mem_iff : ∀ a, a ∈ names ↔ a ∈ xs
  ordered : names.Pairwise fun a b => xs.idxOf a < xs.idxOf b

variable {names xs : List α}

lemma firstOccurrences_collect : FirstOccurrences (collect [] xs) xs := by
  induction xs using List.reverseRecOn with
  | nil => exact ⟨List.nodup_nil, fun _ => Iff.rfl, List.Pairwise.nil⟩
  | append_singleton xs x ih =>
      have hidx : ∀ {a}, a ∈ xs → (xs ++ [x]).idxOf a = xs.idxOf a := fun ha => by
        rw [List.idxOf_append, if_pos ha]
      have hordered : (collect [] xs).Pairwise
          fun a b => (xs ++ [x]).idxOf a < (xs ++ [x]).idxOf b := by
        refine ih.ordered.imp_of_mem fun ha hb hlt => ?_
        rwa [hidx ((ih.mem_iff _).mp ha), hidx ((ih.mem_iff _).mp hb)]
      refine ⟨?_, fun a => by simp [mem_collect], ?_⟩
      · rw [collect_append, collect_cons, collect_nil]
        by_cases hx : x ∈ collect [] xs
        · rw [collectOne_of_mem hx]
          exact ih.nodup
        · rw [collectOne_of_notMem hx, ← List.concat_eq_append]
          exact ih.nodup.concat hx
      · rw [collect_append, collect_cons, collect_nil]
        by_cases hx : x ∈ collect [] xs
        · rwa [collectOne_of_mem hx]
        · rw [collectOne_of_notMem hx]
          refine List.pairwise_append.mpr
            ⟨hordered, List.pairwise_singleton _ _, fun a ha b hb => ?_⟩
          have hxs : x ∉ xs := fun h => hx ((ih.mem_iff x).mpr h)
          rw [List.mem_singleton.mp hb, hidx ((ih.mem_iff a).mp ha), List.idxOf_append,
            if_neg hxs]
          have := List.idxOf_lt_length_of_mem ((ih.mem_iff a).mp ha)
          omega

/-- **`collect` is the only way to a complete result.** -/
theorem firstOccurrences_iff : FirstOccurrences names xs ↔ names = collect [] xs := by
  constructor
  · intro h
    have hc : FirstOccurrences (collect [] xs) xs := firstOccurrences_collect
    have hperm : names.Perm (collect [] xs) :=
      (List.perm_ext_iff_of_nodup h.nodup hc.nodup).mpr fun a =>
        (h.mem_iff a).trans (hc.mem_iff a).symm
    exact List.Perm.eq_of_pairwise (fun a b _ _ hab hba => absurd hab (Nat.lt_asymm hba)) h.ordered
      hc.ordered hperm
  · rintro rfl
    exact firstOccurrences_collect

/-! ## Leaders and followers -/

/-- The leaders of a stream whose elements are marked. -/
def leaders (items : List (Bool × α)) : List α := (items.filter (·.1)).map (·.2)

/-- Every follower that is new when it comes is also the next new leader. -/
def Announced : List α → List (Bool × α) → Prop
  | _, [] => True
  | names, (true, x) :: items => Announced (collectOne names x) items
  | names, (false, b) :: items =>
      (b ∈ names ∨ (leaders items).find? (· ∉ names) = some b) ∧
        Announced (collectOne names b) items

/-- **When leaders are enough.** -/
theorem collect_leaders_iff : ∀ {names : List α} {items : List (Bool × α)},
    collect names (leaders items) = collect names (items.map (·.2)) ↔ Announced names items
  | names, [] => by simp [leaders, Announced]
  | names, (true, x) :: items => by
      rw [Announced, ← collect_leaders_iff]
      simp [leaders]
  | names, (false, b) :: items => by
      have hleaders : leaders ((false, b) :: items) = leaders items := by simp [leaders]
      rw [Announced, ← collect_leaders_iff, hleaders, List.map_cons, collect_cons]
      by_cases hb : b ∈ names
      · rw [collectOne_of_mem hb]
        simp [hb]
      · rw [collectOne_of_notMem hb]
        constructor
        · intro h
          have hnext : (leaders items).find? (· ∉ names) = some b :=
            find?_of_prefix_collect (h ▸ prefix_collect)
          exact ⟨Or.inr hnext, by rw [← collect_eq_of_find? hnext, h]⟩
        · rintro ⟨hmem | hnext, h⟩
          · exact absurd hmem hb
          · rw [collect_eq_of_find? hnext, h]

end Libane
