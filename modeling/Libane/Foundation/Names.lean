import Mathlib

/-!
# Names

Facts about strings that serve as names: decimal numerals, names built from a stem, a separator
and a suffix, and strings that avoid a character.

* `toString_injective` — different numbers have different numerals.
* `append_sep_inj` — a stem without the separator can be told from what follows it.
* `numeral_append_inj` — a numeral can be told from a suffix that begins with something else.
* `Avoids` — the string does not contain the character.
-/

namespace Names

/-- The character does not occur in the string. -/
def Avoids (c : Char) (s : String) : Prop := c ∉ s.toList

instance (c : Char) (s : String) : Decidable (Avoids c s) :=
  inferInstanceAs (Decidable (c ∉ s.toList))

@[simp] lemma avoids_append {c : Char} {a b : String} :
    Avoids c (a ++ b) ↔ Avoids c a ∧ Avoids c b := by
  simp [Avoids, not_or]

lemma avoids_ofList {c : Char} {l : List Char} : Avoids c (String.ofList l) ↔ c ∉ l := by
  simp [Avoids]

/-- Joining strings brings in the separator only. -/
lemma avoids_intercalate {c : Char} {sep : String} (hsep : Avoids c sep) :
    ∀ {l : List String}, (∀ s ∈ l, Avoids c s) → Avoids c (sep.intercalate l)
  | [], _ => by simp [Avoids]
  | [s], h => by simpa using h s
  | s :: t :: l, h => by
      have hrest := avoids_intercalate hsep (l := t :: l) fun x hx =>
        h x (List.mem_cons_of_mem s hx)
      rw [String.intercalate_cons_cons, avoids_append, avoids_append]
      exact ⟨⟨h s List.mem_cons_self, hsep⟩, hrest⟩

/-! ## Numerals -/

/-- A numeral of a natural number consists of digits. -/
lemma isDigit_of_mem_toString {n : ℕ} {c : Char} (h : c ∈ (toString n).toList) : c.isDigit := by
  rw [Nat.toString_eq_repr, Nat.toList_repr] at h
  exact Nat.isDigit_of_mem_toDigits (by norm_num) (by norm_num) h

/-- A numeral of an integer consists of digits and the sign. -/
lemma mem_toString_int {i : ℤ} {c : Char} (h : c ∈ (toString i).toList) :
    c.isDigit ∨ c = '-' := by
  have hnat : ∀ n : ℕ, c ∈ n.repr.toList → c.isDigit := fun n hn => by
    rw [← Nat.toString_eq_repr] at hn
    exact isDigit_of_mem_toString hn
  rw [Int.toString_eq_repr, Int.repr_eq_if] at h
  split_ifs at h with hi
  · exact Or.inl (hnat _ h)
  · rw [String.toList_append, List.mem_append] at h
    rcases h with h | h
    · right
      simpa using h
    · exact Or.inl (hnat _ h)

/-- Different numbers have different numerals. -/
theorem toString_injective : Function.Injective (toString : ℕ → String) := by
  intro m n h
  have hdigits : Nat.toDigits 10 m = Nat.toDigits 10 n := by
    rw [← Nat.toList_repr, ← Nat.toList_repr, ← Nat.toString_eq_repr, ← Nat.toString_eq_repr, h]
  rw [← Nat.ofDigitChars_ten_toDigits (n := m), hdigits, Nat.ofDigitChars_ten_toDigits]

/-- Numerals avoid every character that is neither a digit nor the sign. -/
lemma avoids_toString_int {c : Char} (hc : c.isDigit = false) (hsign : c ≠ '-') (i : ℤ) :
    Avoids c (toString i) := by
  intro h
  rcases mem_toString_int h with hd | hs
  · rw [hc] at hd
    cases hd
  · exact hsign hs

lemma avoids_toString_nat {c : Char} (hc : c.isDigit = false) (n : ℕ) :
    Avoids c (toString n) := by
  intro h
  have hd := isDigit_of_mem_toString h
  rw [hc] at hd
  cases hd

/-! ## Stems -/

/-- What stands before the first separator is determined by the whole. -/
lemma append_sep_inj {sep : Char} : ∀ {a b s t : List Char}, sep ∉ a → sep ∉ b →
    a ++ sep :: s = b ++ sep :: t → a = b ∧ s = t
  | [], [], _, _, _, _, h => ⟨rfl, (List.cons.inj h).2⟩
  | [], y :: b, _, _, _, hb, h => by
      have := (List.cons.inj h).1
      exact absurd (this ▸ List.mem_cons_self) hb
  | x :: a, [], _, _, ha, _, h => by
      have := (List.cons.inj h).1
      exact absurd (this ▸ List.mem_cons_self) ha
  | x :: a, y :: b, s, t, ha, hb, h => by
      obtain ⟨rfl, hrest⟩ := List.cons.inj h
      obtain ⟨rfl, hst⟩ := append_sep_inj (fun hm => ha (List.mem_cons_of_mem _ hm))
        (fun hm => hb (List.mem_cons_of_mem _ hm)) hrest
      exact ⟨rfl, hst⟩

/-- The digits in front of a suffix that begins with something else. -/
lemma takeWhile_numeral {c : Char} (hc : c.isDigit = false) (n : ℕ) (s : List Char) :
    ((toString n).toList ++ c :: s).takeWhile Char.isDigit = (toString n).toList := by
  rw [List.takeWhile_append_of_pos fun d hd => isDigit_of_mem_toString hd,
    List.takeWhile_cons_of_neg (by rw [hc]; decide), List.append_nil]

/-- A numeral and a suffix that begins with something else are determined by the two together. -/
theorem numeral_append_inj {c d : Char} (hc : c.isDigit = false) (hd : d.isDigit = false)
    {m n : ℕ} {s t : List Char}
    (h : (toString m).toList ++ c :: s = (toString n).toList ++ d :: t) :
    m = n ∧ c :: s = d :: t := by
  have hdigits := congrArg (List.takeWhile Char.isDigit) h
  rw [takeWhile_numeral hc, takeWhile_numeral hd] at hdigits
  obtain rfl := toString_injective (String.toList_inj.mp hdigits)
  exact ⟨rfl, List.append_cancel_left h⟩

/-- A stem without digits and a numeral are determined by the two together. -/
theorem append_numeral_inj {s t : String} {m n : ℕ} (hs : ∀ c ∈ s.toList, c.isDigit = false)
    (ht : ∀ c ∈ t.toList, c.isDigit = false) (h : s ++ toString m = t ++ toString n) :
    s = t ∧ m = n := by
  have hstem : ∀ (a : String) (k : ℕ), (∀ c ∈ a.toList, c.isDigit = false) →
      (a ++ toString k).toList.takeWhile (fun c => !c.isDigit) = a.toList := by
    intro a k ha
    have hnone : (toString k).toList.takeWhile (fun c => !c.isDigit) = [] := by
      cases hk : (toString k).toList with
      | nil => rfl
      | cons c cs =>
          have hc : c.isDigit = true :=
            isDigit_of_mem_toString (by rw [hk]; exact List.mem_cons_self)
          simp [hc]
    rw [String.toList_append, List.takeWhile_append_of_pos (by simpa using ha), hnone,
      List.append_nil]
  have hst : s = t := by
    rw [← String.toList_inj, ← hstem s m hs, ← hstem t n ht, h]
  subst hst
  exact ⟨rfl, toString_injective ((String.append_right_inj s).mp h)⟩

end Names
