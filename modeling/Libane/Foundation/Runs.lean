import Mathlib

/-!
# Runs of a deterministic system

A system is a state type `σ`, a type of actions `α`, and a step function that also answers each
action with an observation of type `β`.  A run is a list of actions; nondeterminism of the
environment is carried by the actions themselves.

* `run` — the state after a list of actions.
* `run_induction` — an invariant of the initial state that every step keeps holds after every
  run.
* `run_induction_on` — the same when the steps keep the invariant only for the actions of a given
  set, and every action of the run lies in it.
* `runM`, `runM_induction` — runs whose steps can fail: when no step fails from a good state, no
  run does.
* `runM_induction_along` — the same when the steps of the run meet a condition.
-/

namespace Runs

variable {σ α : Type*} (step : σ → α → σ)

/-- The state reached from `s` by performing the actions in order. -/
def run (s : σ) (as : List α) : σ := as.foldl step s

@[simp] lemma run_nil (s : σ) : run step s [] = s := rfl

@[simp] lemma run_cons (s : σ) (a : α) (as : List α) :
    run step s (a :: as) = run step (step s a) as := rfl

/-- A run over a concatenation is a run continued by a run. -/
lemma run_append (s : σ) (as bs : List α) :
    run step s (as ++ bs) = run step (run step s as) bs := List.foldl_append

/-- **Invariance, relative to a set of actions.**  What holds initially and is kept by every step
whose action lies in `P` holds after every run made of such actions. -/
theorem run_induction_on {I : σ → Prop} {P : α → Prop}
    (hstep : ∀ s a, I s → P a → I (step s a)) :
    ∀ (as : List α) (s : σ), I s → (∀ a ∈ as, P a) → I (run step s as)
  | [], _, hs, _ => hs
  | a :: as, s, hs, hP =>
      run_induction_on hstep as (step s a) (hstep s a hs (hP a List.mem_cons_self))
        (fun b hb => hP b (List.mem_cons_of_mem a hb))

/-- **Invariance.**  What holds initially and is kept by every step holds after every run. -/
theorem run_induction {I : σ → Prop} (hstep : ∀ s a, I s → I (step s a)) (as : List α) (s : σ)
    (hs : I s) : I (run step s as) :=
  run_induction_on step (P := fun _ => True) (fun s a h _ => hstep s a h) as s hs
    (fun _ _ => trivial)

/-! ## Runs that can fail -/

section Failing

variable {ε β : Type*} (stepM : σ → α → Except ε σ)

/-- The state reached by performing the actions in order, unless one of them fails. -/
def runM (s : σ) (as : List α) : Except ε σ := as.foldlM stepM s

@[simp] lemma runM_nil (s : σ) : runM stepM s [] = .ok s := rfl

lemma runM_cons (s : σ) (a : α) (as : List α) :
    runM stepM s (a :: as) = stepM s a >>= fun s' => runM stepM s' as := rfl

lemma runM_append (s : σ) (as bs : List α) :
    runM stepM s (as ++ bs) = runM stepM s as >>= fun s' => runM stepM s' bs :=
  List.foldlM_append

/-- One more action. -/
lemma runM_concat {s s₁ : σ} {as : List α} (h : runM stepM s as = .ok s₁) (a : α) :
    runM stepM s (as ++ [a]) = stepM s₁ a := by
  rw [runM_append, h]
  show runM stepM s₁ [a] = _
  rw [runM_cons]
  cases stepM s₁ a <;> rfl

/-- Every step of the run meets the condition, in the state in which it is taken. -/
def Along (P : σ → α → Prop) : σ → List α → Prop
  | _, [] => True
  | s, a :: as => P s a ∧ ∀ s', stepM s a = .ok s' → Along P s' as

instance Along.decidable {P : σ → α → Prop} [∀ s a, Decidable (P s a)] :
    ∀ (s : σ) (as : List α), Decidable (Along stepM P s as)
  | _, [] => isTrue trivial
  | s, a :: as =>
      match h : stepM s a with
      | .error _ => decidable_of_iff (P s a) (by simp [Along, h])
      | .ok s' =>
          have := Along.decidable (P := P) s' as
          decidable_of_iff (P s a ∧ Along stepM P s' as) (by simp [Along, h])

/-- A condition that follows for the actions of the run. -/
lemma Along.imp {P Q : σ → α → Prop} : ∀ {as : List α} {s : σ},
    (∀ s, ∀ a ∈ as, P s a → Q s a) → Along stepM P s as → Along stepM Q s as
  | [], _, _, _ => trivial
  | a :: _, _, h, ⟨ha, hrest⟩ =>
      ⟨h _ a List.mem_cons_self ha, fun s' hs' =>
        Along.imp (fun s b hb => h s b (List.mem_cons_of_mem a hb)) (hrest s' hs')⟩

/-- The condition holds along the first part of the run. -/
lemma Along.earlier {P : σ → α → Prop} {bs : List α} : ∀ {as : List α} {s : σ},
    Along stepM P s (as ++ bs) → Along stepM P s as
  | [], _, _ => trivial
  | _ :: _, _, ⟨ha, hrest⟩ => ⟨ha, fun s' hs' => Along.earlier (hrest s' hs')⟩

lemma Along.and {P Q : σ → α → Prop} : ∀ {as : List α} {s : σ}, Along stepM P s as →
    Along stepM Q s as → Along stepM (fun s a => P s a ∧ Q s a) s as
  | [], _, _, _ => trivial
  | _ :: _, _, ⟨hP, hPs⟩, ⟨hQ, hQs⟩ =>
      ⟨⟨hP, hQ⟩, fun s' hs' => Along.and (hPs s' hs') (hQs s' hs')⟩

/-- **Progress and invariance.**  When every step succeeds from a good state and leads to one, so
does every run. -/
theorem runM_induction {I : σ → Prop} (hstep : ∀ s a, I s → ∃ s', stepM s a = .ok s' ∧ I s') :
    ∀ (as : List α) (s : σ), I s → ∃ s', runM stepM s as = .ok s' ∧ I s'
  | [], s, hs => ⟨s, rfl, hs⟩
  | a :: as, s, hs => by
      obtain ⟨s₁, h₁, hs₁⟩ := hstep s a hs
      rw [runM_cons, h₁]
      exact runM_induction hstep as s₁ hs₁

/-- **Invariance, when the run goes through.** -/
theorem runM_invariant {I : σ → Prop} {P : α → Prop}
    (hstep : ∀ s a s', I s → P a → stepM s a = .ok s' → I s') :
    ∀ (as : List α) (s s' : σ), I s → (∀ a ∈ as, P a) → runM stepM s as = .ok s' → I s'
  | [], s, s', hs, _, h => by
      obtain rfl : s = s' := Except.ok.inj h
      exact hs
  | a :: as, s, s', hs, hP, h => by
      rw [runM_cons] at h
      cases ha : stepM s a with
      | error e =>
          rw [ha] at h
          cases h
      | ok s₁ =>
          rw [ha] at h
          exact runM_invariant hstep as s₁ s' (hstep s a s₁ hs (hP a List.mem_cons_self) ha)
            (fun b hb => hP b (List.mem_cons_of_mem a hb)) h

/-- The same for steps that meet a condition. -/
theorem runM_induction_along {I : σ → Prop} {P : σ → α → Prop}
    (hstep : ∀ s a, I s → P s a → ∃ s', stepM s a = .ok s' ∧ I s') :
    ∀ (as : List α) (s : σ), I s → Along stepM P s as → ∃ s', runM stepM s as = .ok s' ∧ I s'
  | [], s, hs, _ => ⟨s, rfl, hs⟩
  | a :: as, s, hs, halong => by
      obtain ⟨s₁, h₁, hs₁⟩ := hstep s a hs halong.1
      rw [runM_cons, h₁]
      exact runM_induction_along hstep as s₁ hs₁ (halong.2 s₁ h₁)

end Failing

end Runs
