import Mathlib

/-!
# Steps that may give up

A step changes a state and says whether the procedure it belongs to goes on: `.ok true` to go on,
`.ok false` to give up, an error to abort.  A procedure is a list of steps, run up to the first
that does not go on.

* `Triple S P step Q` — from a state satisfying `P`, the step leaves a state satisfying `Q` when it
  goes on and one satisfying `S` when it stops.
* `runAll_append_of_go` — a list of steps continues where its first part ended.
* `Triple.nil`, `Triple.cons`, `Triple.append` — the rules for lists of steps.
-/

namespace Steps

variable {σ ε : Type*}

/-- A step over states `σ`, with errors `ε`. -/
abbrev Step (σ ε : Type*) := σ → Except ε Bool × σ

/-- Steps in sequence, up to the first that does not go on. -/
def runAll : List (Step σ ε) → Step σ ε
  | [], s => (.ok true, s)
  | step :: rest, s =>
      match step s with
      | (.ok true, s₁) => runAll rest s₁
      | r => r

/-- The specification of a step: `S` where it stops, `Q` where it goes on. -/
def Triple (S P : σ → Prop) (step : Step σ ε) (Q : σ → Prop) : Prop :=
  ∀ s, P s → ((step s).1 = .ok true → Q (step s).2) ∧ ((step s).1 ≠ .ok true → S (step s).2)

variable {S P P' Q R : σ → Prop} {step : Step σ ε} {steps more : List (Step σ ε)}

/-- A stronger precondition. -/
lemma Triple.pre (h : Triple S P step Q) (hP : ∀ s, P' s → P s) : Triple S P' step Q :=
  fun s hs => h s (hP s hs)

/-- A weaker postcondition. -/
lemma Triple.post (h : Triple S P step Q) (hQ : ∀ s, Q s → R s) : Triple S P step R :=
  fun s hs => ⟨fun hok => hQ _ ((h s hs).1 hok), (h s hs).2⟩

/-- A weaker condition on stopping. -/
lemma Triple.stopped {S' : σ → Prop} (h : Triple S P step Q) (hS : ∀ s, S s → S' s) :
    Triple S' P step Q :=
  fun s hs => ⟨(h s hs).1, fun hne => hS _ ((h s hs).2 hne)⟩

/-- A precondition that fixes what the rest of the specification speaks about. -/
lemma Triple.exists_pre {ι : Sort*} {P : ι → σ → Prop} (h : ∀ i, Triple S (P i) step Q) :
    Triple S (fun s => ∃ i, P i s) step Q :=
  fun s ⟨i, hs⟩ => h i s hs

/-- Nothing to do. -/
lemma Triple.nil : Triple S P (runAll ([] : List (Step σ ε))) P :=
  fun _ hs => ⟨fun _ => hs, fun hne => absurd rfl hne⟩

/-- What a list of steps does when its first step goes on. -/
lemma runAll_cons_of_go {s s₁ : σ} (h : step s = (.ok true, s₁)) :
    runAll (step :: steps) s = runAll steps s₁ := by
  rw [runAll, h]

/-- What a list of steps does when its first step stops. -/
lemma runAll_cons_of_stop {s : σ} (h : (step s).1 ≠ .ok true) :
    runAll (step :: steps) s = step s := by
  rw [runAll]
  split
  · rename_i heq
    exact absurd (congrArg Prod.fst heq) h
  · rfl

/-- What a list of steps does when its first part goes through. -/
lemma runAll_append_of_go {s s₁ : σ} (h : runAll steps s = (.ok true, s₁)) :
    runAll (steps ++ more) s = runAll more s₁ := by
  induction steps generalizing s with
  | nil =>
      obtain rfl : s = s₁ := congrArg Prod.snd h
      rfl
  | cons step steps ih =>
      by_cases hgo : (step s).1 = .ok true
      · have heq : step s = (.ok true, (step s).2) := Prod.ext hgo rfl
        rw [runAll_cons_of_go heq] at h
        rw [List.cons_append, runAll_cons_of_go heq, ih h]
      · rw [runAll_cons_of_stop hgo] at h
        exact absurd (congrArg Prod.fst h) hgo

/-- A step, then the rest. -/
lemma Triple.cons (h : Triple S P step Q) (hrest : Triple S Q (runAll steps) R) :
    Triple S P (runAll (step :: steps)) R := by
  intro s hs
  by_cases hgo : (step s).1 = .ok true
  · rw [runAll_cons_of_go (Prod.ext hgo rfl : step s = (.ok true, (step s).2))]
    exact hrest _ ((h s hs).1 hgo)
  · rw [runAll_cons_of_stop hgo]
    exact ⟨fun hok => absurd hok hgo, (h s hs).2⟩

/-- One list of steps, then another. -/
lemma Triple.append (h : Triple S P (runAll steps) Q) (hmore : Triple S Q (runAll more) R) :
    Triple S P (runAll (steps ++ more)) R := by
  induction steps generalizing P with
  | nil => exact hmore.pre fun s hs => (h s hs).1 rfl
  | cons step steps ih =>
      -- the strongest postcondition of the first step serves as the intermediate assertion
      refine Triple.cons (Q := fun s' => ∃ s, P s ∧ step s = (.ok true, s')) (fun s hs => ⟨?_, ?_⟩)
        (ih ?_)
      · exact fun hgo => ⟨s, hs, Prod.ext hgo rfl⟩
      · intro hstop
        have hall := (h s hs).2
        rw [runAll_cons_of_stop hstop] at hall
        exact hall hstop
      · rintro s' ⟨s, hs, heq⟩
        have hall := h s hs
        rwa [runAll_cons_of_go heq] at hall

end Steps
