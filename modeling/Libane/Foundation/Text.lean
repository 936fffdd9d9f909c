import Mathlib

/-!
# Searching in texts

The few operations of `std::string` that a hand-written parser needs, on lists of characters.

* `find` — the position of the first occurrence of a pattern.
* `namesBeforeColons` — a comma-separated list of `name: type` entries, reduced to its names.
* `namesBeforeColons_eq_nil` — a text without a colon has no such entry.
-/

namespace Text

/-- The position at which the pattern occurs first. -/
def find (pat : List Char) : List Char → Option ℕ
  | [] => if pat = [] then some 0 else none
  | c :: cs => if pat.isPrefixOf (c :: cs) then some 0 else (find pat cs).map (· + 1)

/-- The blanks that a parser trims. -/
def isBlank (c : Char) : Bool := c = ' ' || c = '\t' || c = '\n' || c = '\r'

/-- A name in front of a colon, without surrounding blanks; nothing when there is no colon or the
name is empty. -/
def nameBeforeColon (s : List Char) : Option (List Char) :=
  let body := s.dropWhile isBlank
  if ':' ∈ body then
    let name := (body.takeWhile (· ≠ ':')).rdropWhile isBlank
    if name = [] then none else some name
  else none

/-- The names in a comma-separated list of `name: type` entries. -/
def namesBeforeColons (s : List Char) : List (List Char) :=
  (s.splitOn ',').filterMap nameBeforeColon

lemma nameBeforeColon_eq_none {s : List Char} (h : ':' ∉ s) : nameBeforeColon s = none := by
  have hbody : ':' ∉ s.dropWhile isBlank := fun hmem =>
    h ((List.dropWhile_suffix _).subset hmem)
  simp only [nameBeforeColon, if_neg hbody]

/-- A text joined from pieces contains the characters of every piece. -/
lemma mem_intercalate {sep piece : List Char} {c : Char} (hc : c ∈ piece) :
    ∀ {pieces : List (List Char)}, piece ∈ pieces → c ∈ sep.intercalate pieces
  | [p], hp => by
      rw [List.mem_singleton] at hp
      simpa [List.intercalate, ← hp] using hc
  | p :: q :: rest, hp => by
      have hjoin : sep.intercalate (p :: q :: rest) = p ++ sep ++ sep.intercalate (q :: rest) := by
        simp [List.intercalate]
      rw [hjoin]
      rcases List.mem_cons.mp hp with rfl | hp
      · exact List.mem_append_left _ (List.mem_append_left _ hc)
      · exact List.mem_append_right _ (mem_intercalate hc hp)

/-- A piece of a text cut at separators has no other characters than the text. -/
lemma mem_of_mem_splitOn {sep c : Char} {s piece : List Char} (hp : piece ∈ s.splitOn sep)
    (hc : c ∈ piece) : c ∈ s := by
  rw [← @List.intercalate_splitOn _ s _ _ sep]
  exact mem_intercalate hc hp

/-- Without a colon there are no names. -/
theorem namesBeforeColons_eq_nil {s : List Char} (h : ':' ∉ s) : namesBeforeColons s = [] := by
  rw [namesBeforeColons, List.filterMap_eq_nil_iff]
  exact fun piece hp => nameBeforeColon_eq_none fun hc => h (mem_of_mem_splitOn hp hc)

end Text
