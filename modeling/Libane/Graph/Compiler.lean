import Libane.Foundation.Tables
import Libane.Graph.FusionMeaning
import Libane.Graph.ShapeSoundness
import Libane.Runtime.AneRuntime

/-!
# The graph compiler

`GraphCompiler` of `graph_compiler.cpp`.  `buildPlan` validates and fuses; `compile` chooses one
allocation size for all surfaces, lets a backend compile every group and acquires a buffer for
every group's output.

A `CompilerBackend` is any pair of functions: what a backend finds on disk or in its caches may
differ from group to group, and every group has a debug name of its own.

* `Compiled` — what a `CompiledGraph` says about the graph it was compiled from.
* `Allocated` — its output buffers are owned by it alone and laid out for their tensors.
* `compile_spec` — a compilation that succeeds establishes both.
-/

namespace Libane

/-- `ExecutionPlan`. -/
structure ExecutionPlan where
  groups : List FusionGroup
  tensorBytes : Table ℕ
  bufferIds : List ℕ
  graphInputIds : List ℕ
  graphOutputIds : List ℕ

/-- `CompiledPlanGroup`: a fusion group with its program. -/
structure CompiledPlanGroup extends FusionGroup where
  program : AneProgram

/-- `CompiledGraph`.  Buffers are heap indices. -/
structure CompiledGraph where
  groups : List CompiledPlanGroup
  tensorBytes : Table ℕ
  tensorShapes : Table TensorShape
  ioAllocBytes : ℕ
  aneBufs : Table ℕ
  graphInputIds : List ℕ
  graphOutputIds : List ℕ

/-- `CompilerBackend`. -/
structure CompilerBackend where
  owns : AneGraph → FusionGroup → Outcome Bool
  compileGroup : AneGraph → FusionGroup → String → Outcome (Option AneProgram)

namespace GraphCompiler

/-! ## The plan -/

/-- `build_plan`. -/
def buildPlan (g : AneGraph) : Outcome ExecutionPlan := do
  let errors ← GraphValidator.validate g
  if errors ≠ [] then
    .error (.RuntimeError
      (errors.foldl (fun msg e => msg ++ ("\n  " ++ e)) "Graph validation failed:"))
  else do
    let groups ← FusionRules.computeGroups g
    return {
      groups
      tensorBytes := Table.ofList (·.id) (·.shape.bytes) g.tensors
      bufferIds := groups.map (·.output)
      graphInputIds := g.graphInputs
      graphOutputIds := g.graphOutputs }

/-! ## The allocation size -/

/-- The `round_up` of `compile`.  Sizes stay far below `2 ^ 64` here, so nothing wraps. -/
def roundUp (x m : ℕ) : ℕ := (x + m - 1) / m * m

/-- The channel stride that an allocation of `target` bytes leaves to a tensor is long enough and
a multiple of 64. -/
def strideFits (target : ℕ) (s : TensorShape) : Bool :=
  let stride := target / toSizeT s.channels
  !(decide (stride < toSizeT s.seq * 2) || decide (stride % 64 ≠ 0))

/-- One iteration of the search: whether the target suits all tensors. -/
def allFit (g : AneGraph) (target : ℕ) : List ℕ → Outcome Bool
  | [] => .ok true
  | tid :: rest => do
      let t ← g.tensor tid
      if strideFits target t.shape then allFit g target rest else return false

/-- The search loop: 64 bytes more after every miss.  When the iterations run out the last target
is kept although it was never tried. -/
def searchTarget (g : AneGraph) (ids : List ℕ) : ℕ → ℕ → Outcome ℕ
  | 0, target => .ok target
  | n + 1, target => do
      if ← allFit g target ids then return target
      else searchTarget g ids n (target + 64)

/-- `io_alloc_bytes`. -/
def chooseIoAlloc (g : AneGraph) (plan : ExecutionPlan) : Outcome ℕ :=
  let largest := plan.tensorBytes.values.foldl max 0
  if largest > 0 then
    searchTarget g (plan.graphInputIds ++ plan.graphOutputIds) 40960
      (roundUp (max largest 49152) 64)
  else .ok largest

/-! ## The groups -/

section Compile

variable {α : Type} (dirt : ℕ → ℕ → α) (backend : CompilerBackend) (g : AneGraph)

/-- The group loop of `compile`: `done` and `bufs` are what the iterations before it produced. -/
def compileGroups (ioAllocBytes : ℕ) : List FusionGroup → List CompiledPlanGroup → Table ℕ →
    Memory α → Outcome (Option (List CompiledPlanGroup × Table ℕ)) × Memory α
  | [], done, bufs, m => (.ok (some (done, bufs)), m)
  | group :: rest, done, bufs, m =>
      match backend.compileGroup g group ("group_" ++ toString done.length) with
      | .error e => (.error e, m)
      | .ok none => (.ok none, m)
      | .ok (some program) =>
          match g.tensor group.output with
          | .error e => (.error e, m)
          | .ok out =>
              let (h, m₁) :=
                m.acquireTensorPadded dirt out.shape.channels out.shape.seq ioAllocBytes
              compileGroups ioAllocBytes rest (done ++ [{ toFusionGroup := group, program }])
                (bufs.insert group.output h) m₁

/-- The part of `compile` after `build_plan`. -/
def compilePlan (fw : AneFramework) (m : Memory α) (plan : ExecutionPlan) :
    Outcome (Option CompiledGraph) × Memory α :=
  if fw.available = false then (.ok none, m)
  else
    match chooseIoAlloc g plan with
    | .error e => (.error e, m)
    | .ok ioAllocBytes =>
        match compileGroups dirt backend g ioAllocBytes plan.groups [] ∅ m with
        | (.error e, m₁) => (.error e, m₁)
        | (.ok none, m₁) => (.ok none, m₁)
        | (.ok (some (groups, aneBufs)), m₁) =>
            (.ok (some {
              groups, ioAllocBytes, aneBufs
              tensorBytes := plan.tensorBytes
              tensorShapes := Table.ofList (·.id) (·.shape) g.tensors
              graphInputIds := plan.graphInputIds
              graphOutputIds := plan.graphOutputIds }), m₁)

/-- `compile`.  The `catch (...)` is around `build_plan` only. -/
def compile (fw : AneFramework) (m : Memory α) : Outcome (Option CompiledGraph) × Memory α :=
  match buildPlan g with
  | .error (.UndefinedBehaviour w) => (.error (.UndefinedBehaviour w), m)
  | .error _ => (.ok none, m)
  | .ok plan => compilePlan dirt backend g fw m plan

end Compile

/-! ## What a compilation guarantees -/

/-- What a compiled graph says about the graph it was compiled from. -/
structure Compiled (backend : CompilerBackend) (g : AneGraph) (cg : CompiledGraph) : Prop where
  accepted : GraphValidator.validate g = .ok []
  groups_eq : FusionRules.computeGroups g = .ok (cg.groups.map (·.toFusionGroup))
  program_eq : ∀ (k : ℕ) (c : CompiledPlanGroup), cg.groups[k]? = some c →
    backend.compileGroup g c.toFusionGroup ("group_" ++ toString k) = .ok (some c.program)
  tensorBytes_eq : cg.tensorBytes = Table.ofList (·.id) (·.shape.bytes) g.tensors
  tensorShapes_eq : cg.tensorShapes = Table.ofList (·.id) (·.shape) g.tensors
  graphInputIds_eq : cg.graphInputIds = g.graphInputs
  graphOutputIds_eq : cg.graphOutputIds = g.graphOutputs
  buffered : ∀ id, (∃ h, cg.aneBufs.lookup id = some h) ↔ ∃ c ∈ cg.groups, c.output = id

/-- The output buffers in a table are owned by it, and laid out for the tensors they stand for. -/
structure Allocated {α : Type} (g : AneGraph) (ioAllocBytes : ℕ) (bufs : Table ℕ) (m : Memory α)
    (others : List ℕ) : Prop where
  ok : m.Ok
  held : m.Held (bufs.values ++ others)
  laidOut : ∀ id h, bufs.lookup id = some h →
    m.LaidOut h (g.shapeOf id).channels (g.shapeOf id).seq
      (Memory.paddedBytes (g.shapeOf id).channels (g.shapeOf id).seq ioAllocBytes)

/-- The shape table of a graph object lists the shapes of its tensors. -/
lemma lookup_tensorShapes {g : AneGraph} (hg : g.Wf) {id : ℕ} {s : TensorShape}
    (h : (Table.ofList (·.id) (·.shape) g.tensors).lookup id = some s) :
    s = g.shapeOf id ∧ id < g.tensors.length := by
  obtain ⟨t, ht, rfl, rfl⟩ := Table.mem_of_lookup_ofList h
  obtain ⟨i, hi, hget⟩ := List.getElem_of_mem ht
  have hget' : g.tensors[i]? = some t := by rw [List.getElem?_eq_getElem hi, hget]
  have hid := hg.tensor_id i t hget'
  rw [AneGraph.shapeOf, hid, hget']
  exact ⟨rfl, hi⟩

section Spec

variable {α : Type} {dirt : ℕ → ℕ → α} {backend : CompilerBackend} {g : AneGraph}
  {cg : CompiledGraph}

/-- A plan is built only for a graph without errors. -/
lemma buildPlan_eq_ok {plan : ExecutionPlan} (h : buildPlan g = .ok plan) :
    GraphValidator.validate g = .ok [] ∧ ∃ groups, FusionRules.computeGroups g = .ok groups ∧
      plan = {
        groups
        tensorBytes := Table.ofList (·.id) (·.shape.bytes) g.tensors
        bufferIds := groups.map (·.output)
        graphInputIds := g.graphInputs
        graphOutputIds := g.graphOutputs } := by
  obtain ⟨errors, hval, h⟩ := bind_eq_ok.mp h
  split at h
  · cases h
  rename_i hnone
  obtain rfl : errors = [] := not_not.mp hnone
  obtain ⟨groups, hgroups, h⟩ := bind_eq_ok.mp h
  exact ⟨hval, groups, hgroups, (pure_eq_ok_iff.mp h).symm⟩

/-- One iteration of the group loop that did not stop. -/
lemma compileGroups_cons {ioAllocBytes : ℕ} {group : FusionGroup} {rest : List FusionGroup}
    {done : List CompiledPlanGroup} {bufs : Table ℕ} {m m' : Memory α}
    {r : List CompiledPlanGroup × Table ℕ}
    (h : compileGroups dirt backend g ioAllocBytes (group :: rest) done bufs m =
      (.ok (some r), m')) :
    ∃ program out, backend.compileGroup g group ("group_" ++ toString done.length) =
        .ok (some program) ∧
      g.tensor group.output = .ok out ∧
      compileGroups dirt backend g ioAllocBytes rest
        (done ++ [{ toFusionGroup := group, program }])
        (bufs.insert group.output
          (m.acquireTensorPadded dirt out.shape.channels out.shape.seq ioAllocBytes).1)
        (m.acquireTensorPadded dirt out.shape.channels out.shape.seq ioAllocBytes).2 =
        (.ok (some r), m') := by
  rw [compileGroups] at h
  split at h
  · cases h
  · cases h
  rename_i program hprogram
  split at h
  · cases h
  rename_i out hout
  exact ⟨program, out, hprogram, hout, h⟩

/-- Acquiring the buffer of one more output keeps the table in order. -/
lemma Allocated.insert {ioAllocBytes : ℕ} {bufs : Table ℕ} {m : Memory α} {others : List ℕ}
    (ha : Allocated g ioAllocBytes bufs m others) {id : ℕ} (hnew : bufs.lookup id = none)
    {out : GraphTensor} (hout : g.tensor id = .ok out) :
    Allocated g ioAllocBytes
      (bufs.insert id
        (m.acquireTensorPadded dirt out.shape.channels out.shape.seq ioAllocBytes).1)
      (m.acquireTensorPadded dirt out.shape.channels out.shape.seq ioAllocBytes).2 others := by
  have hacq := Memory.acquireTensorPadded_spec dirt ha.ok ha.held out.shape.channels
    out.shape.seq ioAllocBytes
  have hshape := AneGraph.shapeOf_eq hout
  refine ⟨hacq.ok, ?_, fun j h hj => ?_⟩
  · rw [Table.values_insert hnew]
    exact hacq.owned
  · rw [Table.lookup_insert_cases] at hj
    by_cases hji : j = id
    · rw [if_pos hji, Option.some.injEq] at hj
      rw [← hj, hji, hshape]
      exact hacq.layout
    · rw [if_neg hji] at hj
      have hmem : h ∈ bufs.values ++ others :=
        List.mem_append_left _ (Table.mem_values_of_lookup hj)
      exact (hacq.same h hmem).laidOut (ha.laidOut j h hj)

/-- **The group loop.**  It compiles the groups in order, and leaves a buffer for the output of
each. -/
lemma compileGroups_spec {ioAllocBytes : ℕ} {others : List ℕ} {m' : Memory α}
    {groups : List CompiledPlanGroup} {bufs' : Table ℕ} :
    ∀ (rest : List FusionGroup) (done : List CompiledPlanGroup) (bufs : Table ℕ) (m : Memory α),
    compileGroups dirt backend g ioAllocBytes rest done bufs m =
      (.ok (some (groups, bufs')), m') →
    Allocated g ioAllocBytes bufs m others → (rest.map (·.output)).Nodup →
    (∀ group ∈ rest, bufs.lookup group.output = none) →
    Allocated g ioAllocBytes bufs' m' others ∧ ∃ new, groups = done ++ new ∧
      new.map (·.toFusionGroup) = rest ∧
      (∀ (k : ℕ) (c : CompiledPlanGroup), new[k]? = some c → backend.compileGroup g c.toFusionGroup
        ("group_" ++ toString (done.length + k)) = .ok (some c.program)) ∧
      ∀ id, (∃ h, bufs'.lookup id = some h) ↔
        (∃ h, bufs.lookup id = some h) ∨ ∃ group ∈ rest, group.output = id
  | [], done, bufs, m, h, ha, _, _ => by
      obtain ⟨⟨rfl, rfl⟩, rfl⟩ : (done = groups ∧ bufs = bufs') ∧ m = m' := by
        simpa [compileGroups] using h
      exact ⟨ha, [], by simp, rfl, by simp, by simp⟩
  | group :: rest, done, bufs, m, h, ha, hnodup, hfresh => by
      obtain ⟨program, out, hprogram, hout, h⟩ := compileGroups_cons h
      rw [List.map_cons, List.nodup_cons] at hnodup
      have hnew := hfresh group List.mem_cons_self
      have hfresh' : ∀ later ∈ rest, (bufs.insert group.output
          (m.acquireTensorPadded dirt out.shape.channels out.shape.seq ioAllocBytes).1).lookup
          later.output = none := by
        intro later hl
        have hne : later.output ≠ group.output := fun he =>
          hnodup.1 (he ▸ List.mem_map_of_mem hl)
        rw [Table.lookup_insert_cases, if_neg hne]
        exact hfresh later (List.mem_cons_of_mem _ hl)
      obtain ⟨ha', new, rfl, hnew', hprog, hbuf⟩ := compileGroups_spec rest _ _ _ h
        (ha.insert hnew hout) hnodup.2 hfresh'
      refine ⟨ha', { toFusionGroup := group, program } :: new, by simp, by simp [hnew'], ?_, ?_⟩
      · intro k c hc
        cases k with
        | zero =>
            obtain rfl : _ = c := by simpa using hc
            exact hprogram
        | succ k =>
            have := hprog k c (by simpa using hc)
            rwa [List.length_append, List.length_singleton, Nat.add_assoc, Nat.add_comm 1] at this
      · intro id
        rw [hbuf id, Table.lookup_insert_cases]
        by_cases hid : id = group.output
        · simp [hid]
        · simp [hid, eq_comm, List.mem_cons]

/-- **Compilation.**  A compilation that succeeds was of a graph without errors; its record is
right, and its output buffers are its own. -/
theorem compile_spec {fw : AneFramework} {m m' : Memory α} {others : List ℕ}
    (hg : g.Wf) (hok : m.Ok) (hheld : m.Held others)
    (h : compile dirt backend g fw m = (.ok (some cg), m')) :
    Compiled backend g cg ∧ Allocated g cg.ioAllocBytes cg.aneBufs m' others := by
  unfold compile at h
  split at h
  · cases h
  · cases h
  rename_i plan hplan
  obtain ⟨hval, groups, hgroups, rfl⟩ := buildPlan_eq_ok hplan
  unfold compilePlan at h
  by_cases hav : fw.available = false
  · rw [if_pos hav] at h
    cases h
  rw [if_neg hav] at h
  split at h
  · cases h
  rename_i ioAllocBytes hio
  split at h
  · cases h
  · cases h
  rename_i done bufs m₁ hloop
  cases h
  obtain ⟨S⟩ := FusionRules.exists_schedule hg
  obtain rfl : S.groups = groups := Except.ok.inj (S.computed.symm.trans hgroups)
  have hstart : Allocated g ioAllocBytes ∅ m others := ⟨hok, hheld, fun _ _ h => by cases h⟩
  obtain ⟨ha, new, rfl, hnew, hprog, hbuf⟩ := compileGroups_spec S.groups [] ∅ m hloop hstart
    (S.outputs_nodup hg) (fun _ _ => rfl)
  refine ⟨?_, ha⟩
  exact {
    accepted := hval
    groups_eq := by rw [hgroups, ← hnew]
    program_eq := by simpa using hprog
    tensorBytes_eq := rfl
    tensorShapes_eq := rfl
    graphInputIds_eq := rfl
    graphOutputIds_eq := rfl
    buffered := by
      intro id
      rw [hbuf id, ← hnew]
      simp }

/-- The groups of a compiled graph read only graph inputs and outputs of earlier groups. -/
lemma Compiled.groups_wellScoped (hg : g.Wf) (hc : Compiled backend g cg) :
    StraightLine.WellScoped (fun c : CompiledPlanGroup => c.output) (fun c => c.inputs)
      {i | i ∈ g.graphInputs} cg.groups := by
  obtain ⟨S⟩ := FusionRules.exists_schedule hg
  have hgroups : S.groups = cg.groups.map (·.toFusionGroup) :=
    Except.ok.inj (S.computed.symm.trans hc.groups_eq)
  refine StraightLine.wellScoped_iff_split.mpr fun before c after hsplit i hi => ?_
  have h : S.groups = before.map (·.toFusionGroup) ++ c.toFusionGroup ::
      after.map (·.toFusionGroup) := by rw [hgroups, hsplit, List.map_append, List.map_cons]
  refine (S.input_available hg h hi).imp_right ?_
  rintro ⟨earlier, he, rfl⟩
  obtain ⟨e, hmem, rfl⟩ := List.mem_map.mp he
  exact List.mem_map_of_mem (f := fun c : CompiledPlanGroup => c.output) hmem

/-- The output of a compiled group is a tensor that a node produces. -/
lemma Compiled.output_node (hg : g.Wf) (hc : Compiled backend g cg) {c : CompiledPlanGroup}
    (h : c ∈ cg.groups) : ∃ n ∈ g.nodes, n.output = c.output := by
  obtain ⟨S⟩ := FusionRules.exists_schedule hg
  have hgroups : S.groups = cg.groups.map (·.toFusionGroup) :=
    Except.ok.inj (S.computed.symm.trans hc.groups_eq)
  have hmem : c.toFusionGroup ∈ S.groups := hgroups ▸ List.mem_map_of_mem h
  obtain ⟨n, hn, hout⟩ := S.group_output hmem
  exact ⟨n, S.member_mem hmem hn, hout⟩

/-- The inputs of a compiled group are tensors of the graph. -/
lemma Compiled.input_lt (hg : g.Wf) (hc : Compiled backend g cg) {c : CompiledPlanGroup}
    (h : c ∈ cg.groups) {id : ℕ} (hid : id ∈ c.inputs) : id < g.tensors.length := by
  obtain ⟨S⟩ := FusionRules.exists_schedule hg
  have hgroups : S.groups = cg.groups.map (·.toFusionGroup) :=
    Except.ok.inj (S.computed.symm.trans hc.groups_eq)
  have hmem : c.toFusionGroup ∈ S.groups := hgroups ▸ List.mem_map_of_mem h
  obtain ⟨⟨m, hm, hread⟩, -⟩ := ((S.grouped hmem).mem_inputs_iff hg id).mp hid
  exact hg.input_lt (S.member_mem hmem hm) hread

end Spec

end GraphCompiler

end Libane
