import Mathlib

/-!
# Tables

Tables from natural-number ids to values, as Mathlib's association lists.

* `Table.ofList` — a table filled by inserting the entries of a list one after another.
* `mem_of_lookup_ofList`, `lookup_ofList` — what a lookup in such a table finds.
* `Table.values` — the values that are stored, with `values_insert` for a new id.
-/

/-- A table of values by id. -/
abbrev Table (β : Type) := AList fun _ : ℕ => β

namespace Table

variable {β γ : Type}

/-- The stored values. -/
def values (t : Table β) : List β := t.entries.map Sigma.snd

/-- Insert the entries of a list one after another. -/
def ofList (key : γ → ℕ) (val : γ → β) (l : List γ) : Table β :=
  l.foldl (fun t x => t.insert (key x) (val x)) ∅

lemma lookup_insert_cases (t : Table β) (i j : ℕ) (b : β) :
    (t.insert i b).lookup j = if j = i then some b else t.lookup j := by
  by_cases h : j = i
  · rw [if_pos h, h]
    exact AList.lookup_insert t
  · rw [if_neg h]
    exact AList.lookup_insert_ne h

lemma mem_values_of_lookup {t : Table β} {i : ℕ} {b : β} (h : t.lookup i = some b) :
    b ∈ t.values :=
  List.mem_map_of_mem (f := Sigma.snd) (AList.mem_lookup_iff.mp h)

lemma lookup_of_mem_values {t : Table β} {b : β} (h : b ∈ t.values) :
    ∃ i, t.lookup i = some b := by
  obtain ⟨⟨i, c⟩, hmem, rfl⟩ := List.mem_map.mp h
  exact ⟨i, AList.mem_lookup_iff.mpr hmem⟩

lemma values_insert {t : Table β} {i : ℕ} (h : t.lookup i = none) (b : β) :
    values (t.insert i b) = b :: t.values := by
  rw [values, AList.entries_insert_of_notMem (AList.lookup_eq_none.mp h)]
  rfl

/-- What a table holds after an insertion. -/
lemma mem_values_of_insert {t : Table β} {i : ℕ} {b b' : β}
    (h : b' ∈ values (t.insert i b)) : b' = b ∨ b' ∈ t.values := by
  obtain ⟨j, hj⟩ := lookup_of_mem_values h
  rw [lookup_insert_cases] at hj
  split_ifs at hj
  · exact Or.inl (Option.some.inj hj).symm
  · exact Or.inr (mem_values_of_lookup hj)

/-- What a table holds after a removal. -/
lemma mem_values_of_erase {t : Table β} {i : ℕ} {b : β} (h : b ∈ values (t.erase i)) :
    b ∈ t.values := by
  obtain ⟨⟨j, c⟩, hmem, rfl⟩ := List.mem_map.mp h
  exact List.mem_map_of_mem (f := Sigma.snd) ((List.kerase_sublist i t.entries).subset hmem)

/-- Two ids cannot share a value of a table whose values are pairwise distinct. -/
lemma eq_of_lookup_eq {t : Table β} (h : t.values.Nodup) {i j : ℕ} {b : β}
    (hi : t.lookup i = some b) (hj : t.lookup j = some b) : i = j := by
  have := List.inj_on_of_nodup_map h (AList.mem_lookup_iff.mp hi) (AList.mem_lookup_iff.mp hj) rfl
  exact congrArg Sigma.fst this

lemma ofList_concat (key : γ → ℕ) (val : γ → β) (l : List γ) (x : γ) :
    ofList key val (l ++ [x]) = (ofList key val l).insert (key x) (val x) :=
  List.foldl_concat _ _ _ _

/-- What is found in a filled table was put there. -/
lemma mem_of_lookup_ofList {key : γ → ℕ} {val : γ → β} {l : List γ} {i : ℕ} {b : β}
    (h : (ofList key val l).lookup i = some b) : ∃ x ∈ l, key x = i ∧ val x = b := by
  induction l using List.reverseRecOn with
  | nil => cases h
  | append_singleton l x ih =>
      rw [ofList_concat, lookup_insert_cases] at h
      by_cases hi : i = key x
      · rw [if_pos hi] at h
        exact ⟨x, by simp, hi.symm, Option.some.inj h⟩
      · rw [if_neg hi] at h
        obtain ⟨y, hy, hrest⟩ := ih h
        exact ⟨y, List.mem_append_left _ hy, hrest⟩

/-- With pairwise distinct keys, what is put into a table is found there. -/
lemma lookup_ofList {key : γ → ℕ} {l : List γ} (hkeys : (l.map key).Nodup) (val : γ → β) {x : γ}
    (hx : x ∈ l) : (ofList key val l).lookup (key x) = some (val x) := by
  induction l using List.reverseRecOn with
  | nil => cases hx
  | append_singleton l y ih =>
      rw [List.map_append, List.nodup_append] at hkeys
      obtain ⟨hl, -, hdisj⟩ := hkeys
      rw [ofList_concat, lookup_insert_cases]
      rcases List.mem_append.mp hx with hx | hx
      · rw [if_neg (hdisj (key x) (List.mem_map_of_mem hx) (key y) (by simp)), ih hl hx]
      · rw [List.mem_singleton.mp hx, if_pos rfl]

end Table
