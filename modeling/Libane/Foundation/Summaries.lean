import Libane.Foundation.StraightLine

/-!
# Programs that stand for parts of programs

A block of a straight-line program may be replaced by one instruction that computes the block's
result, when everything else the block defines is forgotten.

* `WellScoped.run_congr` — a program depends only on the names it is given.
* `run_last` — what the last instruction leaves behind.
* `SummaryOk` — an instruction that may stand for a block; `run_summaries` is the simulation.
-/

namespace StraightLine

variable {Name Value Instr : Type*} [DecidableEq Name]
variable {dst : Instr → Name} {args : Instr → List Name} {sem : Instr → List Value → Value}

/-- A program depends only on the names it is given, and computes the same from the same. -/
theorem WellScoped.run_congr {is : List Instr} {D : Set Name} {env₁ env₂ env₁' : Env Name Value}
    (hw : WellScoped dst args D is) (henv : ∀ a ∈ D, env₁ a = env₂ a)
    (hrun : run dst args sem env₁ is = some env₁') :
    ∃ env₂', run dst args sem env₂ is = some env₂' ∧
      ∀ a, a ∈ D ∨ a ∈ is.map dst → env₁' a = env₂' a := by
  induction is generalizing D env₁ env₂ with
  | nil =>
      obtain rfl := Option.some.inj hrun
      exact ⟨env₂, rfl, fun a ha => henv a (by simpa using ha)⟩
  | cons i is ih =>
      obtain ⟨mid, hexec, hrun⟩ := Option.bind_eq_some_iff.mp hrun
      obtain ⟨vs, hvs, rfl⟩ := Option.map_eq_some_iff.mp hexec
      have hread : readAll env₂ (args i) = some vs := by
        rw [← hvs]
        exact readAll_congr fun a ha => (henv a (hw.1 a ha)).symm
      have hmid : ∀ a ∈ insert (dst i) D, Function.update env₁ (dst i) (some (sem i vs)) a =
          Function.update env₂ (dst i) (some (sem i vs)) a := by
        intro a ha
        by_cases hai : a = dst i
        · rw [hai, Function.update_self, Function.update_self]
        · rw [Function.update_of_ne hai, Function.update_of_ne hai]
          exact henv a (ha.resolve_left hai)
      obtain ⟨env₂', hrun', hagree⟩ := ih hw.2 hmid hrun
      refine ⟨env₂', by simp only [run, exec, hread, Option.map_some, Option.bind_some, hrun'],
        fun a ha => hagree a ?_⟩
      rw [List.map_cons, List.mem_cons] at ha
      rcases ha with ha | rfl | ha
      · exact Or.inl (Set.mem_insert_of_mem _ ha)
      · exact Or.inl (Set.mem_insert _ _)
      · exact Or.inr ha

/-- Interpretations that agree on the instructions of a program execute it alike. -/
lemma run_sem_congr {sem' : Instr → List Value → Value} {is : List Instr}
    (h : ∀ i ∈ is, sem i = sem' i) (env : Env Name Value) :
    run dst args sem env is = run dst args sem' env is := by
  induction is generalizing env with
  | nil => rfl
  | cons i is ih =>
      rw [run, run, exec, exec, h i List.mem_cons_self]
      exact congrArg _ (funext fun env' => ih (fun j hj => h j (List.mem_cons_of_mem i hj)) env')

/-- The name defined last has the value of the last instruction. -/
lemma run_last {is : List Instr} {i : Instr} (hlast : is.getLast? = some i)
    {env env' : Env Name Value} (hrun : run dst args sem env is = some env') :
    ∃ mid vs, readAll mid (args i) = some vs ∧ env' (dst i) = some (sem i vs) := by
  obtain ⟨init, rfl⟩ := List.getLast?_eq_some_iff.mp hlast
  rw [run_append] at hrun
  obtain ⟨mid, -, hrun⟩ := Option.bind_eq_some_iff.mp hrun
  obtain ⟨_, hexec, hrun⟩ := Option.bind_eq_some_iff.mp hrun
  obtain ⟨vs, hvs, rfl⟩ := Option.map_eq_some_iff.mp hexec
  obtain rfl := Option.some.inj hrun
  exact ⟨mid, vs, hvs, Function.update_self _ _ _⟩

/-! ## Summaries -/

section Summaries

variable {C : Type*} {cdst : C → Name} {cargs : C → List Name} {csem : C → List Value → Value}
  {body : C → List Instr}

/-- An instruction that stands for a block: it reads names in `S`, the block defines none of them,
and defines what the instruction defines. -/
structure SummaryOk (dst : Instr → Name) (cdst : C → Name) (cargs : C → List Name)
    (body : C → List Instr) (S : Set Name) (c : C) : Prop where
  args_kept : ∀ a ∈ cargs c, a ∈ S
  fresh : ∀ i ∈ body c, dst i ∉ S
  result_mem : cdst c ∈ (body c).map dst

/-- Instructions for blocks, each of which is kept for the later ones. -/
def SummariesOk (dst : Instr → Name) (cdst : C → Name) (cargs : C → List Name)
    (body : C → List Instr) : Set Name → List C → Prop
  | _, [] => True
  | S, c :: cs => SummaryOk dst cdst cargs body S c ∧
      SummariesOk dst cdst cargs body (insert (cdst c) S) cs

/-- **Summaries simulate their blocks.**  When every instruction computes what its block computes,
the summaries agree with the whole program on everything that is kept. -/
theorem run_summaries {cs : List C} {S : Set Name} {K E E' : Env Name Value}
    (hok : SummariesOk dst cdst cargs body S cs)
    (hsum : ∀ c ∈ cs, ∀ E E' vs, run dst args sem E (body c) = some E' →
      readAll E (cargs c) = some vs → E' (cdst c) = some (csem c vs))
    (hKE : ∀ a ∈ S, K a = E a ∧ (E a).isSome)
    (hrun : run dst args sem E (cs.flatMap body) = some E') :
    ∃ K', run cdst cargs csem K cs = some K' ∧
      ∀ a, a ∈ S ∨ a ∈ cs.map cdst → K' a = E' a ∧ (E' a).isSome := by
  induction cs generalizing S K E with
  | nil =>
      obtain rfl := Option.some.inj hrun
      exact ⟨K, rfl, fun a ha => hKE a (by simpa using ha)⟩
  | cons c cs ih =>
      obtain ⟨hc, hok⟩ := hok
      rw [List.flatMap_cons, run_append] at hrun
      obtain ⟨E₁, h₁, h₂⟩ := Option.bind_eq_some_iff.mp hrun
      obtain ⟨vs, hvs⟩ := Option.isSome_iff_exists.mp
        (readAll_isSome fun a ha => (hKE a (hc.args_kept a ha)).2)
      have hval := hsum c List.mem_cons_self E E₁ vs h₁ hvs
      have hread : readAll K (cargs c) = some vs := by
        rw [← hvs]
        exact readAll_congr fun a ha => (hKE a (hc.args_kept a ha)).1
      have hnext : ∀ a ∈ insert (cdst c) S,
          Function.update K (cdst c) (some (csem c vs)) a = E₁ a ∧ (E₁ a).isSome := by
        intro a ha
        by_cases hac : a = cdst c
        · rw [hac, Function.update_self, hval]
          exact ⟨rfl, rfl⟩
        · have haS := ha.resolve_left hac
          have hnot : a ∉ (body c).map dst := fun hm => by
            obtain ⟨i, hi, rfl⟩ := List.mem_map.mp hm
            exact hc.fresh i hi haS
          rw [Function.update_of_ne hac, run_frame h₁ hnot]
          exact hKE a haS
      obtain ⟨K', hK', hagree⟩ := ih hok (fun d hd => hsum d (List.mem_cons_of_mem c hd)) hnext h₂
      refine ⟨K', by simp only [run, exec, hread, Option.map_some, Option.bind_some, hK'],
        fun a ha => hagree a ?_⟩
      rw [List.map_cons, List.mem_cons] at ha
      rcases ha with ha | rfl | ha
      · exact Or.inl (Set.mem_insert_of_mem _ ha)
      · exact Or.inl (Set.mem_insert _ _)
      · exact Or.inr ha

end Summaries

end StraightLine
