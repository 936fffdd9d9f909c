import Libane.Foundation.StraightLine

/-!
# Programs without names

Every name that a straight-line program reads stands for one of the values computed so far.  Its
wiring says for every instruction at which positions these values are; what the program computes
depends on nothing else.

* `Wire` — an operation and the positions of its operands.
* `evalWires` — the values given, and then one for each operation.
* `WiredAs` — a program with names has this wiring; `wiredAs_of_positions` gives it in equations.
* `run_wired` — running the program gives every name its value.
-/

namespace StraightLine

/-- An operation and the positions of its operands. -/
structure Wire (Code : Type*) where
  code : Code
  args : List ℕ

variable {Name Value Instr Code : Type*}

section Values

variable (sem : Code → List Value → Value)

/-- The values given, followed by the values of the operations. -/
def evalWires : List Value → List (Wire Code) → List Value
  | vs, [] => vs
  | vs, w :: ws => evalWires (vs ++ [sem w.code (w.args.filterMap (vs[·]?))]) ws

@[simp] lemma evalWires_nil (vs : List Value) : evalWires sem vs [] = vs := rfl

@[simp] lemma evalWires_cons (vs : List Value) (w : Wire Code) (ws : List (Wire Code)) :
    evalWires sem vs (w :: ws) =
      evalWires sem (vs ++ [sem w.code (w.args.filterMap (vs[·]?))]) ws := rfl

end Values

/-! ## Wirings of programs -/

variable (dst : Instr → Name) (args : Instr → List Name) (code : Instr → Code)

/-- The instructions have these operations, and read what stands at these positions of the names
known so far. -/
def WiredAs : List Name → List (Wire Code) → List Instr → Prop
  | _, [], [] => True
  | names, w :: ws, i :: is =>
      code i = w.code ∧ w.args.map (names[·]?) = (args i).map some ∧
        WiredAs (names ++ [dst i]) ws is
  | _, _, _ => False

variable {dst args code}

/-- Operations read what stands before them, `n` being given. -/
def bounded : ℕ → List (Wire Code) → Bool
  | _, [] => true
  | n, w :: ws => w.args.all (· < n) && bounded (n + 1) ws

/-- A wiring in equations: the operations agree, and so do the operands when positions count the
given names and all that the program defines. -/
lemma wiredAs_of_positions : ∀ {is : List Instr} {ws : List (Wire Code)} {names : List Name},
    ws.length = is.length → bounded names.length ws = true → is.map code = ws.map (·.code) →
    ws.map (fun w => w.args.map ((names ++ is.map dst)[·]?)) =
      is.map (fun i => (args i).map some) →
    WiredAs dst args code names ws is
  | [], [], _, _, _, _, _ => trivial
  | i :: is, w :: ws, names, hlen, hbound, hcode, hargs => by
      rw [bounded, Bool.and_eq_true, List.all_eq_true] at hbound
      rw [List.map_cons, List.map_cons, List.cons.injEq] at hcode
      rw [List.map_cons, List.map_cons, List.map_cons, List.cons.injEq] at hargs
      refine ⟨hcode.1, ?_, wiredAs_of_positions (Nat.succ.inj hlen) ?_ hcode.2 ?_⟩
      · rw [← hargs.1]
        refine List.map_congr_left fun k hk => ?_
        rw [List.getElem?_append_left (by simpa using hbound.1 k hk)]
      · rw [List.length_append, List.length_singleton]
        exact hbound.2
      · simpa using hargs.2

/-- Reading names is looking up positions. -/
lemma readAll_positions {env : Env Name Value} {names : List Name} {vs : List Value}
    (henv : names.map env = vs.map some) : ∀ {ks : List ℕ} {as : List Name},
    ks.map (names[·]?) = as.map some → readAll env as = some (ks.filterMap (vs[·]?))
  | [], [], _ => rfl
  | [], _ :: _, h => by cases h
  | _ :: _, [], h => by cases h
  | k :: ks, a :: as, h => by
      rw [List.map_cons, List.map_cons, List.cons.injEq] at h
      have hk : (names.map env)[k]? = some (env a) := by rw [List.getElem?_map, h.1]; rfl
      rw [henv, List.getElem?_map] at hk
      obtain ⟨v, hv, hva⟩ := Option.map_eq_some_iff.mp hk
      rw [readAll, ← hva, readAll_positions henv h.2, List.filterMap_cons_some hv]
      rfl

variable [DecidableEq Name] (sem : Code → List Value → Value)

/-- **Names and positions.**  A program that assigns every name once, and none that is given, runs
to its end and gives its names the values of its wiring. -/
theorem run_wired : ∀ {is : List Instr} {ws : List (Wire Code)} {names : List Name}
    {vs : List Value} {env : Env Name Value}, WiredAs dst args code names ws is →
    (is.map dst).Nodup → (∀ a ∈ names, a ∉ is.map dst) → names.map env = vs.map some →
    ∃ env', run dst args (fun i => sem (code i)) env is = some env' ∧
      (names ++ is.map dst).map env' = (evalWires sem vs ws).map some
  | [], [], names, vs, env, _, _, _, henv => ⟨env, rfl, by simpa using henv⟩
  | i :: is, w :: ws, names, vs, env, ⟨hcode, hargs, hrest⟩, hnodup, hfresh, henv => by
      have hread := readAll_positions henv hargs
      rw [List.map_cons, List.nodup_cons] at hnodup
      have hnew : ∀ a ∈ names, a ≠ dst i ∧ a ∉ is.map dst := fun a ha => by
        have := hfresh a ha
        rwa [List.map_cons, List.mem_cons, not_or] at this
      have henv' : (names ++ [dst i]).map (Function.update env (dst i)
          (some (sem (code i) (w.args.filterMap (vs[·]?))))) =
          (vs ++ [sem w.code (w.args.filterMap (vs[·]?))]).map some := by
        rw [List.map_append, List.map_append, ← henv]
        congr 1
        · exact List.map_congr_left fun a ha => Function.update_of_ne (hnew a ha).1 _ _
        · simp [hcode]
      have hfresh' : ∀ a ∈ names ++ [dst i], a ∉ is.map dst := fun a ha => by
        rcases List.mem_append.mp ha with ha | ha
        · exact (hnew a ha).2
        · rw [List.mem_singleton.mp ha]
          exact hnodup.1
      obtain ⟨env', hrun, hvals⟩ := run_wired hrest hnodup.2 hfresh' henv'
      refine ⟨env', ?_, by simpa using hvals⟩
      simp only [run, exec, hread, Option.map_some, Option.bind_some, hrun]
  | [], _ :: _, _, _, _, h, _, _, _ => h.elim
  | _ :: _, [], _, _, _, h, _, _, _ => h.elim

/-- The value of the name assigned last. -/
lemma run_wired_last {is : List Instr} {ws : List (Wire Code)} {names : List Name}
    {vs : List Value} {env : Env Name Value} (hw : WiredAs dst args code names ws is)
    (hnodup : (is.map dst).Nodup) (hfresh : ∀ a ∈ names, a ∉ is.map dst)
    (henv : names.map env = vs.map some) {a : Name} (ha : (is.map dst).getLast? = some a) :
    ∃ v, (evalWires sem vs ws).getLast? = some v ∧
      (run dst args (fun i => sem (code i)) env is).bind (· a) = some v := by
  obtain ⟨env', hrun, hvals⟩ := run_wired sem hw hnodup hfresh henv
  have hlast : (names ++ is.map dst).getLast? = some a := by
    rw [List.getLast?_append, ha]
    rfl
  have hvalue := congrArg List.getLast? hvals
  rw [List.getLast?_map, List.getLast?_map, hlast, Option.map_some] at hvalue
  obtain ⟨v, hv, hva⟩ := Option.map_eq_some_iff.mp hvalue.symm
  exact ⟨v, hv, by rw [hrun, Option.bind_some, ← hva]⟩

end StraightLine
