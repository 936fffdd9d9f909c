import Mathlib

/-!
# Straight-line programs

A straight-line program is a list of instructions.  All that is known of an instruction is the
name it defines, `dst`, the names it reads, `args`, and, where values matter, the function `sem`
from the values it reads to the value it defines.

* `WellScoped` — every name an instruction reads is given from outside or defined earlier.
* `run` — execution over a partial environment; reading an undefined name is `none`.
  `WellScoped.run_total` says that well-scoped programs never do.
* `chain` — execution of a block in which the first operand of every instruction is replaced by
  a running value, the result of the instruction before it.
* `Chunk` — a block with declared externals and one result; outside the block only the result is
  kept.  `run_chunks` is the simulation: on a program cut into chunks that keep every name a
  later chunk declares, chunkwise execution agrees with execution of the whole program on
  everything that is kept.
-/

namespace StraightLine

variable {Name Value Instr : Type*}

/-! ## Scoping -/

section Scoping

variable (dst : Instr → Name) (args : Instr → List Name)

/-- Every operand is in `defined` or defined by an earlier instruction of the program. -/
def WellScoped : Set Name → List Instr → Prop
  | _, [] => True
  | defined, i :: is =>
      (∀ a ∈ args i, a ∈ defined) ∧ WellScoped (insert (dst i) defined) is

variable {dst args}

/-- More defined names never hurt. -/
lemma WellScoped.mono : ∀ {is : List Instr} {D D' : Set Name}, D ⊆ D' →
    WellScoped dst args D is → WellScoped dst args D' is
  | [], _, _, _, _ => trivial
  | _ :: _, _, _, hD, ⟨hargs, hrest⟩ =>
      ⟨fun a ha => hD (hargs a ha), hrest.mono (Set.insert_subset_insert hD)⟩

/-- A program is well scoped when its first part is, and its second part is once the names of the
first are defined. -/
lemma wellScoped_append {is js : List Instr} {D : Set Name} :
    WellScoped dst args D (is ++ js) ↔
      WellScoped dst args D is ∧ WellScoped dst args (D ∪ {a | a ∈ is.map dst}) js := by
  induction is generalizing D with
  | nil => simp [WellScoped]
  | cons i is ih =>
      have hset : insert (dst i) D ∪ {a | a ∈ is.map dst} =
          D ∪ {a | a ∈ (i :: is).map dst} := by
        ext a
        simp only [List.map_cons, List.mem_cons, Set.mem_union, Set.mem_insert_iff,
          Set.mem_ofPred_eq]
        tauto
      rw [List.cons_append, WellScoped, WellScoped, ih, hset, and_assoc]

/-- A program is well scoped when every instruction reads only what is given or defined by the
instructions before it. -/
lemma wellScoped_iff_split {is : List Instr} {D : Set Name} :
    WellScoped dst args D is ↔ ∀ before i after, is = before ++ i :: after →
      ∀ a ∈ args i, a ∈ D ∨ a ∈ before.map dst := by
  constructor
  · rintro h before i after rfl a ha
    have h' := (wellScoped_append.mp h).2
    exact h'.1 a ha
  · induction is generalizing D with
    | nil => exact fun _ => trivial
    | cons i is ih =>
        intro h
        refine ⟨fun a ha => ?_, ih fun before j after heq a ha => ?_⟩
        · simpa using h [] i is rfl a ha
        · have := h (i :: before) j after (by rw [heq, List.cons_append]) a ha
          simp only [List.map_cons, List.mem_cons] at this
          rcases this with hD | rfl | hb
          · exact Or.inl (Set.mem_insert_of_mem _ hD)
          · exact Or.inl (Set.mem_insert _ _)
          · exact Or.inr hb

end Scoping

/-! ## Execution -/

section Execution

/-- A partial assignment of values to names. -/
abbrev Env (Name Value : Type*) := Name → Option Value

/-- Read several names; undefined when one of them is. -/
def readAll (env : Env Name Value) : List Name → Option (List Value)
  | [] => some []
  | a :: as => do
      let v ← env a
      let vs ← readAll env as
      return v :: vs

lemma readAll_congr {env env' : Env Name Value} :
    ∀ {as : List Name}, (∀ a ∈ as, env a = env' a) → readAll env as = readAll env' as
  | [], _ => rfl
  | a :: as, h => by
      rw [readAll, readAll, h a List.mem_cons_self,
        readAll_congr fun b hb => h b (List.mem_cons_of_mem a hb)]

lemma readAll_isSome {env : Env Name Value} :
    ∀ {as : List Name}, (∀ a ∈ as, (env a).isSome) → (readAll env as).isSome
  | [], _ => rfl
  | a :: as, h => by
      obtain ⟨v, hv⟩ := Option.isSome_iff_exists.mp (h a List.mem_cons_self)
      obtain ⟨vs, hvs⟩ := Option.isSome_iff_exists.mp
        (readAll_isSome fun b hb => h b (List.mem_cons_of_mem a hb))
      simp [readAll, hv, hvs]

/-- What is read is what the environment holds under each name. -/
lemma readAll_eq_some_iff {env : Env Name Value} :
    ∀ {as : List Name} {vs : List Value}, readAll env as = some vs ↔ as.map env = vs.map some
  | [], vs => by cases vs <;> simp [readAll]
  | a :: as, [] => by simp [readAll, Option.bind_eq_some_iff]
  | a :: as, v :: vs => by
      rw [List.map_cons, List.map_cons, List.cons.injEq, ← readAll_eq_some_iff]
      simp only [readAll, Option.bind_eq_bind, Option.bind_eq_some_iff, Option.pure_def,
        Option.some.injEq, List.cons.injEq]
      constructor
      · rintro ⟨w, hw, ws, hws, rfl, rfl⟩
        exact ⟨hw, hws⟩
      · rintro ⟨hv, hvs⟩
        exact ⟨v, hv, vs, hvs, rfl, rfl⟩

/-- Everything that is read successfully is defined. -/
lemma mem_of_readAll {env : Env Name Value} {as : List Name} {vs : List Value}
    (h : readAll env as = some vs) {v : Value} (hv : v ∈ vs) : ∃ a ∈ as, env a = some v := by
  have : some v ∈ as.map env := by
    rw [readAll_eq_some_iff.mp h]
    exact List.mem_map_of_mem hv
  exact List.mem_map.mp this

variable [DecidableEq Name]
variable (dst : Instr → Name) (args : Instr → List Name) (sem : Instr → List Value → Value)

/-- One instruction: read the operands, define the result. -/
def exec (env : Env Name Value) (i : Instr) : Option (Env Name Value) :=
  (readAll env (args i)).map fun vs => Function.update env (dst i) (some (sem i vs))

/-- A whole program. -/
def run (env : Env Name Value) : List Instr → Option (Env Name Value)
  | [] => some env
  | i :: is => (exec dst args sem env i).bind fun env' => run env' is

variable {dst args sem}

lemma run_append (env : Env Name Value) (is js : List Instr) :
    run dst args sem env (is ++ js) =
      (run dst args sem env is).bind fun env' => run dst args sem env' js := by
  induction is generalizing env with
  | nil => rfl
  | cons i is ih =>
      simp only [List.cons_append, run, Option.bind_assoc]
      exact congrArg _ (funext fun env' => ih env')

lemma exec_frame {env env' : Env Name Value} {i : Instr}
    (h : exec dst args sem env i = some env') {a : Name} (ha : a ≠ dst i) : env' a = env a := by
  obtain ⟨vs, -, rfl⟩ := Option.map_eq_some_iff.mp h
  exact Function.update_of_ne ha _ _

/-- **Frame.**  A program leaves every name it does not define alone. -/
theorem run_frame {env env' : Env Name Value} {is : List Instr}
    (h : run dst args sem env is = some env') {a : Name} (ha : a ∉ is.map dst) :
    env' a = env a := by
  induction is generalizing env with
  | nil => rw [run, Option.some.injEq] at h; rw [h]
  | cons i is ih =>
      rw [List.map_cons, List.mem_cons, not_or] at ha
      obtain ⟨env₁, h₁, h₂⟩ := Option.bind_eq_some_iff.mp h
      rw [ih h₂ ha.2, exec_frame h₁ ha.1]

/-- A finished program has defined every name it was to define, and undefined none. -/
lemma run_isSome {env env' : Env Name Value} {is : List Instr}
    (h : run dst args sem env is = some env') {a : Name}
    (ha : (env a).isSome ∨ a ∈ is.map dst) : (env' a).isSome := by
  induction is generalizing env with
  | nil =>
      rw [run, Option.some.injEq] at h
      simpa [h] using ha
  | cons i is ih =>
      obtain ⟨env₁, h₁, h₂⟩ := Option.bind_eq_some_iff.mp h
      refine ih h₂ ?_
      by_cases hai : a = dst i
      · obtain ⟨vs, -, rfl⟩ := Option.map_eq_some_iff.mp h₁
        left
        rw [hai, Function.update_self]
        rfl
      · rw [exec_frame h₁ hai]
        exact ha.imp_right fun hm => (List.mem_cons.mp hm).resolve_left hai

/-- **Well-scoped programs run to the end.** -/
theorem WellScoped.run_total {is : List Instr} {D : Set Name} {env : Env Name Value}
    (hw : WellScoped dst args D is) (henv : ∀ a ∈ D, (env a).isSome) :
    ∃ env', run dst args sem env is = some env' := by
  induction is generalizing D env with
  | nil => exact ⟨env, rfl⟩
  | cons i is ih =>
      obtain ⟨vs, hvs⟩ := Option.isSome_iff_exists.mp
        (readAll_isSome fun a ha => henv a (hw.1 a ha))
      have hnext : ∀ a ∈ insert (dst i) D,
          (Function.update env (dst i) (some (sem i vs)) a).isSome := by
        intro a ha
        by_cases hai : a = dst i
        · rw [hai, Function.update_self]; rfl
        · rw [Function.update_of_ne hai]
          exact henv a (ha.resolve_left hai)
      obtain ⟨env', hrun⟩ := ih hw.2 hnext
      exact ⟨env', by simp only [run, exec, hvs, Option.map_some, Option.bind_some, hrun]⟩

/-- **A single-assignment program is a system of equations.**  When no name is defined twice and
nothing given is redefined, the values at the end satisfy every instruction. -/
theorem WellScoped.run_solves {is : List Instr} {D : Set Name} {env env' : Env Name Value}
    (hw : WellScoped dst args D is) (hnodup : (is.map dst).Nodup) (hD : ∀ a ∈ D, a ∉ is.map dst)
    (h : run dst args sem env is = some env') {i : Instr} (hi : i ∈ is) :
    ∃ vs, readAll env' (args i) = some vs ∧ env' (dst i) = some (sem i vs) := by
  induction is generalizing D env with
  | nil => cases hi
  | cons j is ih =>
      rw [List.map_cons, List.nodup_cons] at hnodup
      obtain ⟨env₁, hexec, hrun⟩ := Option.bind_eq_some_iff.mp h
      rcases List.mem_cons.mp hi with rfl | hi
      · obtain ⟨vs, hvs, rfl⟩ := Option.map_eq_some_iff.mp hexec
        refine ⟨vs, ?_, ?_⟩
        · rw [← hvs]
          refine readAll_congr fun a ha => ?_
          have hnew := hD a (hw.1 a ha)
          rw [List.map_cons, List.mem_cons, not_or] at hnew
          rw [run_frame hrun hnew.2, Function.update_of_ne hnew.1]
        · rw [run_frame hrun hnodup.1, Function.update_self]
      · refine ih hw.2 hnodup.2 (fun a ha => ?_) hrun hi
        rcases ha with rfl | ha
        · exact hnodup.1
        · have hnew := hD a ha
          rw [List.map_cons, List.mem_cons, not_or] at hnew
          exact hnew.2

/-! ## Blocks with a running value -/

variable (dst args sem)

/-- Execute a block, feeding each instruction the running value in place of its first operand. -/
def chain : Value → Env Name Value → List Instr → Option Value
  | v, _, [] => some v
  | v, env, i :: is => do
      let vs ← readAll env (args i).tail
      let r := sem i (v :: vs)
      chain r (Function.update env (dst i) (some r)) is

/-- The first operand of every instruction is the name defined just before it, `x` at first. -/
def Chained : Name → List Instr → Prop
  | _, [] => True
  | x, i :: is => (args i).head? = some x ∧ Chained (dst i) is

/-- The name a block defines last; `x` for the empty block. -/
def lastDst (x : Name) : List Instr → Name
  | [] => x
  | i :: is => lastDst (dst i) is

variable {dst args sem}

omit [DecidableEq Name] in
lemma lastDst_eq_getLast (x : Name) {is : List Instr} (h : is ≠ []) :
    lastDst dst x is = dst (is.getLast h) := by
  induction is generalizing x with
  | nil => exact absurd rfl h
  | cons i is ih =>
      cases is with
      | nil => rfl
      | cons j is => exact ih (dst i) (List.cons_ne_nil j is)

omit [DecidableEq Name] in
/-- A chain goes on with an instruction whose first operand is the name defined last. -/
lemma chained_concat {x : Name} {is : List Instr} {i : Instr} (h : is ≠ []) :
    Chained dst args x (is ++ [i]) ↔
      Chained dst args x is ∧ (args i).head? = some (dst (is.getLast h)) := by
  induction is generalizing x with
  | nil => exact absurd rfl h
  | cons j is ih =>
      cases is with
      | nil => simp [Chained]
      | cons k is =>
          rw [List.cons_append, Chained, Chained, ih (List.cons_ne_nil k is), and_assoc]
          rfl

/-- On a block that really chains, the running value is what the plain execution finds under the
name of the first operand: both define the same value last. -/
lemma chain_eq_of_run {is : List Instr} {x : Name} {v : Value} {L E E' : Env Name Value}
    {S : Set Name} (hch : Chained dst args x is) (hx : E x = some v)
    (hagree : ∀ a ∈ S, L a = E a)
    (hside : WellScoped dst (fun i => (args i).tail) S is)
    (hrun : run dst args sem E is = some E') :
    chain dst args sem v L is = E' (lastDst dst x is) := by
  induction is generalizing x v L E S with
  | nil =>
      rw [run, Option.some.injEq] at hrun
      rw [chain, lastDst, ← hrun, hx]
  | cons i is ih =>
      obtain ⟨hhead, hch⟩ := hch
      have hargs : args i = x :: (args i).tail := (List.cons_head?_tail hhead).symm
      obtain ⟨E₁, hexec, hrun⟩ := Option.bind_eq_some_iff.mp hrun
      obtain ⟨ws, hread, rfl⟩ := Option.map_eq_some_iff.mp hexec
      rw [hargs, readAll, hx] at hread
      obtain ⟨vs, hvs, rfl⟩ : ∃ vs, readAll E (args i).tail = some vs ∧ v :: vs = ws := by
        simpa [Option.bind_eq_some_iff] using hread
      have hL : readAll L (args i).tail = some vs := by
        rw [← hvs]
        exact readAll_congr fun a ha => hagree a (hside.1 a ha)
      rw [chain, hL]
      refine ih (x := dst i) (S := insert (dst i) S) hch (Function.update_self _ _ _) ?_
        hside.2 hrun
      intro a ha
      by_cases hai : a = dst i
      · rw [hai, Function.update_self, Function.update_self]
      · rw [Function.update_of_ne hai, Function.update_of_ne hai]
        exact hagree a (ha.resolve_left hai)

/-! ## Chunks -/

/-- A block with the names it takes from outside and the one name it gives back. -/
structure Chunk (Name Instr : Type*) where
  externals : List Name
  body : List Instr
  result : Name

variable (dst args sem)

/-- The part of an environment that a block sees: its declared externals. -/
def restrict (env : Env Name Value) (names : List Name) : Env Name Value :=
  fun a => if a ∈ names then env a else none

/-- Execute a chunk: all externals must be defined, the first one starts the running value, and
only the result is added to the environment. -/
def runChunk (env : Env Name Value) (c : Chunk Name Instr) : Option (Env Name Value) :=
  (readAll env c.externals).bind fun vs =>
    (vs.head?.bind fun v => chain dst args sem v (restrict env c.externals) c.body).map fun r =>
      Function.update env c.result (some r)

/-- Execute chunks one after another. -/
def runChunks (env : Env Name Value) : List (Chunk Name Instr) → Option (Env Name Value)
  | [] => some env
  | c :: cs => (runChunk dst args sem env c).bind fun env' => runChunks env' cs

/-- What a chunk must satisfy when the names in `S` are the ones kept so far. -/
structure ChunkOk (S : Set Name) (c : Chunk Name Instr) : Prop where
  externals_kept : ∀ a ∈ c.externals, a ∈ S
  chained : ∀ x, c.externals.head? = some x → Chained dst args x c.body
  sides : WellScoped dst (fun i => (args i).tail) {a | a ∈ c.externals} c.body
  externals_ne : c.externals ≠ []
  body_ne : c.body ≠ []
  result_eq : ∀ h : c.body ≠ [], c.result = dst (c.body.getLast h)
  fresh : ∀ i ∈ c.body, dst i ∉ S

/-- A list of chunks, each of which keeps its result for the later ones. -/
def ChunksOk : Set Name → List (Chunk Name Instr) → Prop
  | _, [] => True
  | S, c :: cs => ChunkOk dst args S c ∧ ChunksOk (insert c.result S) cs

variable {dst args sem}

/-- One chunk, against the plain execution of its body. -/
lemma run_chunk {S : Set Name} {c : Chunk Name Instr} {K E E' : Env Name Value}
    (hc : ChunkOk dst args S c) (hKE : ∀ a ∈ S, K a = E a ∧ (E a).isSome)
    (hrun : run dst args sem E c.body = some E') :
    ∃ K', runChunk dst args sem K c = some K' ∧
      ∀ a ∈ insert c.result S, K' a = E' a ∧ (E' a).isSome := by
  have hlast : c.result = dst (c.body.getLast hc.body_ne) := hc.result_eq hc.body_ne
  have hmem : c.result ∈ c.body.map dst := by
    rw [hlast]
    exact List.mem_map_of_mem (List.getLast_mem hc.body_ne)
  obtain ⟨x, hx⟩ : ∃ x, c.externals.head? = some x :=
    Option.isSome_iff_exists.mp (by simpa using hc.externals_ne)
  have hext : c.externals = x :: c.externals.tail := (List.cons_head?_tail hx).symm
  have hxS : x ∈ S := hc.externals_kept x (List.mem_of_mem_head? hx)
  obtain ⟨v, hv⟩ := Option.isSome_iff_exists.mp (hKE x hxS).2
  have hreadK : ∃ vs, readAll K c.externals = some (v :: vs) := by
    have hdefined : ∀ a ∈ c.externals.tail, (K a).isSome := by
      intro a ha
      have haS := hc.externals_kept a (List.mem_of_mem_tail ha)
      rw [(hKE a haS).1]
      exact (hKE a haS).2
    obtain ⟨ws, hws⟩ := Option.isSome_iff_exists.mp (readAll_isSome hdefined)
    refine ⟨ws, ?_⟩
    rw [hext, readAll, (hKE x hxS).1, hv, hws]
    rfl
  obtain ⟨vs, hvs⟩ := hreadK
  have hchain : chain dst args sem v (restrict K c.externals) c.body = E' c.result := by
    have hdst : lastDst dst x c.body = _ := lastDst_eq_getLast x hc.body_ne
    rw [hlast, ← hdst]
    refine chain_eq_of_run (hc.chained x hx) hv ?_ hc.sides hrun
    intro a (ha : a ∈ c.externals)
    rw [restrict, if_pos ha]
    exact (hKE a (hc.externals_kept a ha)).1
  obtain ⟨r, hr⟩ := Option.isSome_iff_exists.mp (run_isSome hrun (Or.inr hmem))
  refine ⟨Function.update K c.result (some r), ?_, ?_⟩
  · simp [runChunk, hvs, hchain, hr]
  · intro a ha
    by_cases har : a = c.result
    · rw [har, Function.update_self, hr]
      exact ⟨rfl, rfl⟩
    · have haS : a ∈ S := ha.resolve_left har
      have hnot : a ∉ c.body.map dst := by
        intro hm
        obtain ⟨i, hi, rfl⟩ := List.mem_map.mp hm
        exact hc.fresh i hi haS
      rw [Function.update_of_ne har, run_frame hrun hnot]
      exact hKE a haS

/-- **Chunkwise execution agrees with plain execution** on the names given at the start and on
the results of all chunks, and never reads an undefined name. -/
theorem run_chunks {S : Set Name} {cs : List (Chunk Name Instr)} {K E E' : Env Name Value}
    (hcs : ChunksOk dst args S cs) (hKE : ∀ a ∈ S, K a = E a ∧ (E a).isSome)
    (hrun : run dst args sem E (cs.flatMap Chunk.body) = some E') :
    ∃ K', runChunks dst args sem K cs = some K' ∧
      ∀ a, a ∈ S ∨ a ∈ cs.map Chunk.result → K' a = E' a ∧ (E' a).isSome := by
  induction cs generalizing S K E with
  | nil =>
      rw [List.flatMap_nil, run, Option.some.injEq] at hrun
      subst hrun
      exact ⟨K, rfl, fun a ha => hKE a (by simpa using ha)⟩
  | cons c cs ih =>
      obtain ⟨hc, hcs⟩ := hcs
      rw [List.flatMap_cons, run_append] at hrun
      obtain ⟨E₁, h₁, h₂⟩ := Option.bind_eq_some_iff.mp hrun
      obtain ⟨K₁, hK₁, hKE₁⟩ := run_chunk hc hKE h₁
      obtain ⟨K', hK', hKE'⟩ := ih hcs hKE₁ h₂
      refine ⟨K', by rw [runChunks, hK₁, Option.bind_some, hK'], fun a ha => hKE' a ?_⟩
      rw [List.map_cons, List.mem_cons] at ha
      rcases ha with ha | rfl | ha
      · exact Or.inl (Set.mem_insert_of_mem _ ha)
      · exact Or.inl (Set.mem_insert _ _)
      · exact Or.inr ha

end Execution

end StraightLine
