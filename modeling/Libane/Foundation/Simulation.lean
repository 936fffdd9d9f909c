import Mathlib.Logic.Basic

/-!
# Answering systems and simulation

A system answers every request with an observation.  The concrete system may fail, the abstract one
may not.

* `serve`, `respond` — the answers to a list of requests, and the state after them.
* `respond_invariant` — what every step keeps holds at the end.
* `respond_since` — what holds at the end has come about at some time and been kept since.
* `simulation` — when related states answer alike and stay related, every history is answered
  alike; the requests may have to meet a condition in the abstract state.
-/

namespace Simulation

variable {σ τ α β ε : Type*} (stepM : σ → α → Except ε (β × σ)) (step : τ → α → β × τ)

/-- The answers of a system that may fail. -/
def serve (s : σ) : List α → Except ε (List β × σ)
  | [] => .ok ([], s)
  | a :: as =>
      match stepM s a with
      | .error e => .error e
      | .ok (b, s') =>
          match serve s' as with
          | .error e => .error e
          | .ok (bs, s'') => .ok (b :: bs, s'')

/-- The answers of a system that never fails. -/
def respond (t : τ) : List α → List β × τ
  | [] => ([], t)
  | a :: as => ((step t a).1 :: (respond (step t a).2 as).1, (respond (step t a).2 as).2)

/-- Every request meets the condition, in the state in which it is made. -/
def Meets (P : τ → α → Prop) : τ → List α → Prop
  | _, [] => True
  | t, a :: as => P t a ∧ Meets P (step t a).2 as

variable {stepM step}

/-- **Invariance.**  The invariant may speak of the requests made so far, the latest first. -/
theorem respond_invariant (step : τ → α → β × τ) (I : List α → τ → Prop)
    (hstep : ∀ past t a, I past t → I (a :: past) (step t a).2) :
    ∀ (as past : List α) (t : τ), I past t → I (as.reverse ++ past) (respond step t as).2
  | [], _, _, h => h
  | a :: as, past, t, h => by
      have := respond_invariant step I hstep as (a :: past) (step t a).2 (hstep past t a h)
      simpa [respond] using this

/-- **Since.**  What holds at the end has come about at some time and has been kept since, or it has
held from the beginning. -/
theorem respond_since (step : τ → α → β × τ) {I H : τ → Prop} {Comes Keeps : τ → α → Prop}
    (hinv : ∀ t a, I t → I (step t a).2)
    (hstep : ∀ t a, I t → (H (step t a).2 ↔ Comes t a ∨ H t ∧ Keeps t a)) :
    ∀ (as : List α) (t : τ), I t → (H (respond step t as).2 ↔
      (H t ∧ Meets step Keeps t as) ∨ ∃ before a since, as = before ++ a :: since ∧
        Comes (respond step t before).2 a ∧
        Meets step Keeps (step (respond step t before).2 a).2 since)
  | [], t, _ => by simp [respond, Meets]
  | a :: as, t, h => by
      rw [respond, respond_since step hinv hstep as _ (hinv t a h), hstep t a h]
      constructor
      · rintro (⟨hcomes | ⟨hH, hkeeps⟩, hmeets⟩ | ⟨before, b, since, rfl, hcomes, hmeets⟩)
        · exact .inr ⟨[], a, as, rfl, hcomes, hmeets⟩
        · exact .inl ⟨hH, hkeeps, hmeets⟩
        · exact .inr ⟨a :: before, b, since, rfl, hcomes, hmeets⟩
      · rintro (⟨hH, hkeeps, hmeets⟩ | ⟨before, b, since, heq, hcomes, hmeets⟩)
        · exact .inl ⟨.inr ⟨hH, hkeeps⟩, hmeets⟩
        · cases before with
          | nil =>
              obtain ⟨rfl, rfl⟩ := List.cons.inj heq
              exact .inl ⟨.inl hcomes, hmeets⟩
          | cons x before =>
              obtain ⟨rfl, rfl⟩ := List.cons.inj heq
              exact .inr ⟨before, b, since, rfl, hcomes, hmeets⟩

/-- **Simulation.** -/
theorem simulation {R : σ → τ → Prop} {P : τ → α → Prop}
    (hstep : ∀ s t a, R s t → P t a →
      ∃ s', stepM s a = .ok ((step t a).1, s') ∧ R s' (step t a).2) :
    ∀ (as : List α) (s : σ) (t : τ), R s t → Meets step P t as →
      ∃ s', serve stepM s as = .ok ((respond step t as).1, s') ∧ R s' (respond step t as).2
  | [], s, _, hR, _ => ⟨s, rfl, hR⟩
  | a :: as, s, t, hR, hP => by
      obtain ⟨s₁, h₁, hR₁⟩ := hstep s t a hR hP.1
      obtain ⟨s₂, h₂, hR₂⟩ := simulation hstep as s₁ (step t a).2 hR₁ hP.2
      refine ⟨s₂, ?_, hR₂⟩
      simp only [serve, h₁, h₂]
      rfl

end Simulation
