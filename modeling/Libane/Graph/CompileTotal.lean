import Libane.Graph.LoweringTotal

/-!
# When compilation returns

`GraphCompiler::compile` promises never to throw.  Only `build_plan` runs under its `catch`; what
the backend throws on a group goes through.

Whether the backend throws depends on the nodes alone, so the search for an allocation size, the
buffers and the answers of the framework do not matter for it; they only decide which graph or null
pointer is returned.  The groups are compiled one after another up to the first that throws, and a
group that the framework refuses ends the compilation before a later one can throw.  So the
condition is about the graph, and the result about every framework.

* `compileGroup_ok_iff` — `MilBackend` returns on a group exactly when all members are lowerable.
* `compileGroups_ok`, `compileGroups_error` — the group loop returns when the backend does, and
  throws when the backend throws.
* `compile_total_iff` — the graphs on which compilation with `MilBackend` always returns.
-/

namespace Libane

open GraphValidator MilBuilder WeightBlob GraphCompiler

namespace MilBackend

variable {F : Type} [MilFloat F]

/-! ## Groups -/

section Group

variable (G : AcceptedGraph)

omit [MilFloat F] in
/-- The size of a matrix whose dimensions are channel counts. -/
lemma matrix_bytes {s t : TensorShape} (hs : s.Valid) (ht : t.Valid) :
    toSizeT s.channels * toSizeT t.channels * 2 % 2 ^ 64 =
      2 * (s.channels.toNat * t.channels.toNat) := by
  have hnat : ∀ {u : TensorShape}, u.Valid →
      toSizeT u.channels = u.channels.toNat ∧ u.channels.toNat ≤ 16384 := by
    intro u hu
    have := toSizeT_of_nonneg hu.channels_pos.le (by have := hu.channels_le; omega)
    have := hu.channels_le
    have := hu.channels_pos
    omega
  rw [(hnat hs).1, (hnat ht).1]
  have hle := Nat.mul_le_mul (hnat hs).2 (hnat ht).2
  rw [Nat.mod_eq_of_lt (by omega), Nat.mul_comm]

omit [MilFloat F] in
/-- The weights of a node of an accepted graph are read within their bounds. -/
lemma weightEntries_ok {n : GraphNode} (hn : n ∈ G.graph.nodes) :
    ∃ entries, weightEntries G.graph n = .ok entries := by
  unfold weightEntries
  split_ifs with hnone
  · exact ⟨_, rfl⟩
  split
  · exact ⟨_, rfl⟩
  · exact ⟨_, rfl⟩
  · rename_i hop
    obtain ⟨inT, outT, hin, hout, hinv, houtv⟩ := exists_tensors G hn
    obtain ⟨outT', hout', herr⟩ := G.opErrors_eq_nil hn
    obtain rfl : outT = outT' := Except.ok.inj (hout.symm.trans hout')
    simp only [opErrors, hop, Except.ok.injEq, matmulErrors_eq_nil_iff] at herr
    obtain ⟨x, hx⟩ := List.length_eq_one_iff.mp herr.1
    rw [hx] at hin ⊢
    change G.graph.tensor x = .ok inT at hin
    have hfirst : firstChannels G.graph n = inT.shape.channels := by
      simp [firstChannels, hx, AneGraph.tensor_eq_ok_iff.mp hin]
    have hlen := herr.2
    rw [hfirst, matrix_bytes hinv houtv] at hlen
    simp only [hin, hout, ok_bind, fromFp16Transposed]
    rw [if_neg (by omega)]
    exact ⟨_, rfl⟩
  · exact ⟨_, rfl⟩

/-- **A chain of nodes is lowered** exactly when each of them is lowerable. -/
lemma lowerNodes_ok_iff : ∀ (chainVar : String) {ms : List GraphNode},
    (∀ m ∈ ms, m ∈ G.graph.nodes) →
    ((∃ r : List (MilFragment F) × List WeightEntry,
      lowerNodes G.graph chainVar (ms.map (·.id)) = .ok r) ↔ ∀ m ∈ ms, Lowerable G.graph m)
  | _, [], _ => by simp [lowerNodes]
  | chainVar, m :: ms, hms => by
      have hm := hms m List.mem_cons_self
      have ih := lowerNodes_ok_iff (tensorVar m.output) fun m' hm' =>
        hms m' (List.mem_cons_of_mem m hm')
      rw [List.forall_mem_cons, ← ih]
      constructor
      · rintro ⟨r, h⟩
        obtain ⟨n, hn, h⟩ := bind_eq_ok.mp h
        obtain rfl : m = n := Except.ok.inj ((G.wf.node_ok hm).symm.trans hn)
        obtain ⟨f, hf, h⟩ := bind_eq_ok.mp h
        obtain ⟨entries, -, h⟩ := bind_eq_ok.mp h
        obtain ⟨rest, hrest, -⟩ := bind_eq_ok.mp h
        exact ⟨lowerable_of_ok G hm hf, rest, hrest⟩
      · rintro ⟨hl, rest, hrest⟩
        obtain ⟨f, hf, -⟩ := nodeToFragment_ok (F := F) G chainVar (tensorVar m.output) hm hl
        obtain ⟨entries, hentries⟩ := weightEntries_ok G hm
        exact ⟨_, bind_eq_ok.mpr ⟨m, G.wf.node_ok hm, bind_eq_ok.mpr ⟨f, hf,
          bind_eq_ok.mpr ⟨entries, hentries, bind_eq_ok.mpr ⟨rest, hrest, rfl⟩⟩⟩⟩⟩

omit [MilFloat F] in
lemma fusedInputs_total {g : AneGraph} (hg : g.Wf) : ∀ (ids : List ℕ),
    (∀ id ∈ ids, id < g.tensors.length) → ∃ inputs, fusedInputs g ids = .ok inputs
  | [], _ => ⟨[], rfl⟩
  | id :: ids, h => by
      obtain ⟨t, ht, -⟩ := hg.tensor_ok (h id List.mem_cons_self)
      obtain ⟨more, hmore⟩ := fusedInputs_total hg ids fun id' hid' =>
        h id' (List.mem_cons_of_mem id hid')
      exact ⟨_, bind_eq_ok.mpr ⟨t, ht, bind_eq_ok.mpr ⟨more, hmore, rfl⟩⟩⟩

variable {group : FusionGroup} {ms : List GraphNode}

/-- A group is lowered exactly when its members are lowerable. -/
lemma lowerGroup_ok_iff (hgroup : FusionRules.Grouped G.graph group ms) :
    (∃ lowered : LoweredGroup F, lowerGroup G.graph group = .ok lowered) ↔
      ∀ m ∈ ms, Lowerable G.graph m := by
  obtain ⟨hids, hms⟩ := hgroup.resolves
  obtain ⟨-, -, -, hins⟩ := hgroup.head_inputs fun m hm => G.inputs_ne_nil (hms m hm)
  obtain ⟨chain, rest, hchain⟩ := List.exists_cons_of_ne_nil hins
  rw [← lowerNodes_ok_iff (F := F) G (tensorVar chain) hms, ← hids]
  unfold lowerGroup
  rw [hchain]
  constructor
  · rintro ⟨lowered, h⟩
    obtain ⟨inputs, -, h⟩ := bind_eq_ok.mp h
    obtain ⟨r, hr, -⟩ := bind_eq_ok.mp h
    exact ⟨r, hr⟩
  · rintro ⟨r, hr⟩
    obtain ⟨inputs, hinputs⟩ := fusedInputs_total G.wf (chain :: rest) fun id hid => by
      rw [← hchain] at hid
      obtain ⟨⟨m, hm, hread⟩, -⟩ := (hgroup.mem_inputs_iff G.wf id).mp hid
      exact G.wf.input_lt (hms m hm) hread
    exact ⟨_, bind_eq_ok.mpr ⟨inputs, hinputs, bind_eq_ok.mpr ⟨r, hr, rfl⟩⟩⟩

/-- **`MilBackend` returns** on a group exactly when its members are lowerable. -/
theorem compileGroup_ok_iff (hgroup : FusionRules.Grouped G.graph group ms) (fw : AneFramework)
    (debugName : String) : (∃ r, MilBackend.compileGroup F fw G.graph group debugName = .ok r) ↔
      ∀ m ∈ ms, Lowerable G.graph m := by
  rw [← lowerGroup_ok_iff (F := F) G hgroup]
  constructor
  · rintro ⟨r, h⟩
    obtain ⟨lowered, hlowered, -⟩ := bind_eq_ok.mp h
    exact ⟨lowered, hlowered⟩
  · rintro ⟨lowered, h⟩
    have hl := lowerGroup_ok G.wf hgroup h
    obtain ⟨prog, hprog, -⟩ := buildFused_eq hl.inputs_ne_nil hl.fragments_ne_nil
    exact ⟨_, bind_eq_ok.mpr ⟨lowered, h, bind_eq_ok.mpr ⟨prog, hprog, rfl⟩⟩⟩

end Group

end MilBackend

/-! ## The compiler -/

namespace GraphCompiler

section Loop

variable {α : Type} {dirt : ℕ → ℕ → α} {backend : CompilerBackend} {g : AneGraph}
  {ioAllocBytes : ℕ}

/-- The group loop returns when the backend does. -/
lemma compileGroups_ok : ∀ (rest : List FusionGroup) (done : List CompiledPlanGroup)
    (bufs : Table ℕ) (m : Memory α),
    (∀ group ∈ rest, ∃ t, g.tensor group.output = .ok t) →
    (∀ group ∈ rest, ∀ name, ∃ r, backend.compileGroup g group name = .ok r) →
    ∃ r m', compileGroups dirt backend g ioAllocBytes rest done bufs m = (.ok r, m')
  | [], _, _, _, _, _ => ⟨_, _, rfl⟩
  | group :: rest, done, bufs, m, hout, hback => by
      obtain ⟨r, hr⟩ := hback group List.mem_cons_self ("group_" ++ toString done.length)
      obtain ⟨t, ht⟩ := hout group List.mem_cons_self
      rw [compileGroups, hr]
      cases r with
      | none => exact ⟨_, _, rfl⟩
      | some program =>
          simp only [ht]
          exact compileGroups_ok rest _ _ _
            (fun later hl => hout later (List.mem_cons_of_mem group hl))
            fun later hl => hback later (List.mem_cons_of_mem group hl)

/-- The group loop throws when the backend throws on one group and gives up on none. -/
lemma compileGroups_error (hnone : ∀ group name, backend.compileGroup g group name ≠ .ok none) :
    ∀ {rest : List FusionGroup} {done : List CompiledPlanGroup} {bufs : Table ℕ} {m : Memory α},
    (∃ group ∈ rest, ∀ name, ¬ ∃ r, backend.compileGroup g group name = .ok r) →
    ¬ ∃ r m', compileGroups dirt backend g ioAllocBytes rest done bufs m = (.ok r, m')
  | [], _, _, _, ⟨_, hmem, _⟩, _ => by cases hmem
  | group :: rest, done, bufs, m, ⟨bad, hmem, hbad⟩, ⟨r, m', h⟩ => by
      rw [compileGroups] at h
      split at h
      · cases h
      · rename_i hr
        exact hnone _ _ hr
      rename_i program hr
      split at h
      · cases h
      refine compileGroups_error hnone ⟨bad, (List.mem_cons.mp hmem).resolve_left ?_, hbad⟩
        ⟨r, m', h⟩
      rintro rfl
      exact hbad _ ⟨_, hr⟩

/-- One iteration of the search tests every shape. -/
lemma allFit_eq (target : ℕ) : ∀ {ids : List ℕ}, (∀ id ∈ ids, ∃ t, g.tensor id = .ok t) →
    ∃ b, allFit g target ids = .ok b ∧
      (b = true ↔ ∀ id ∈ ids, strideFits target (g.shapeOf id) = true)
  | [], _ => ⟨true, rfl, by simp⟩
  | id :: ids, h => by
      obtain ⟨t, ht⟩ := h id List.mem_cons_self
      obtain ⟨b, hb, hiff⟩ := allFit_eq target fun id' hid' => h id' (List.mem_cons_of_mem id hid')
      rw [allFit, ht, ok_bind, List.forall_mem_cons, AneGraph.shapeOf_eq ht]
      by_cases hfit : strideFits target t.shape = true
      · rw [if_pos hfit]
        exact ⟨b, hb, by simp [hiff, hfit]⟩
      · rw [if_neg hfit]
        exact ⟨false, rfl, by simp [hfit]⟩

/-- **The search loop.**  It returns the first size that suits all tensors, or, when none of `n`
sizes does, the size after them. -/
lemma searchTarget_spec {ids : List ℕ} (h : ∀ id ∈ ids, ∃ t, g.tensor id = .ok t) :
    ∀ (n target : ℕ), ∃ io, searchTarget g ids n target = .ok io ∧
      ((∃ k < n, io = target + 64 * k ∧ ∀ id ∈ ids, strideFits io (g.shapeOf id) = true) ∨
        io = target + 64 * n ∧ ∀ k < n, ¬ ∀ id ∈ ids,
          strideFits (target + 64 * k) (g.shapeOf id) = true)
  | 0, target => ⟨target, rfl, Or.inr ⟨rfl, by simp⟩⟩
  | n + 1, target => by
      obtain ⟨b, hb, hiff⟩ := allFit_eq target h
      rw [searchTarget, hb, ok_bind]
      by_cases hfit : b = true
      · rw [if_pos hfit]
        exact ⟨target, rfl, Or.inl ⟨0, Nat.succ_pos n, rfl, hiff.mp hfit⟩⟩
      · rw [if_neg hfit]
        obtain ⟨io, hio, hspec⟩ := searchTarget_spec h n (target + 64)
        refine ⟨io, hio, hspec.imp ?_ ?_⟩
        · rintro ⟨k, hk, rfl, hall⟩
          exact ⟨k + 1, by omega, by ring, hall⟩
        · rintro ⟨rfl, hnone⟩
          refine ⟨by ring, fun k hk => ?_⟩
          cases k with
          | zero => exact fun hall => hfit (hiff.mpr hall)
          | succ k =>
              have heq : target + 64 * (k + 1) = target + 64 + 64 * k := by ring
              rw [heq]
              exact hnone k (by omega)

/-- The search for an allocation size looks up tensors only. -/
lemma chooseIoAlloc_ok (plan : ExecutionPlan)
    (hids : ∀ id ∈ plan.graphInputIds ++ plan.graphOutputIds, ∃ t, g.tensor id = .ok t) :
    ∃ io, chooseIoAlloc g plan = .ok io := by
  simp only [chooseIoAlloc]
  split_ifs
  · obtain ⟨io, hio, -⟩ := searchTarget_spec hids 40960
      (roundUp (max (plan.tensorBytes.values.foldl max 0) 49152) 64)
    exact ⟨io, hio⟩
  · exact ⟨_, rfl⟩

end Loop

/-! ## Totality -/

/-- A graph object that neither makes validation divide by zero nor, being accepted, has a node
that cannot be lowered. -/
def Compilable (g : AneGraph) : Prop :=
  (checkStructure g = [] → ∀ n ∈ g.nodes, ¬ ZeroShuffle n) ∧
    (validate g = .ok [] → ∀ n ∈ g.nodes, MilBackend.Lowerable g n)

instance (g : AneGraph) : Decidable (Compilable g) := by
  unfold Compilable; infer_instance

variable {F α : Type} [MilFloat F] {g : AneGraph}

omit [MilFloat F] in
/-- A backend that never gives up: `MilBackend` on a framework that compiles everything. -/
lemma compileGroup_ne_none [MilFloat F] (group : FusionGroup) (name : String) :
    (MilBackend F ⟨true, fun _ _ => true⟩).compileGroup g group name ≠ .ok none := by
  intro h
  obtain ⟨lowered, -, h⟩ := bind_eq_ok.mp h
  obtain ⟨prog, -, h⟩ := bind_eq_ok.mp h
  rw [pure_eq_ok_iff, aneCompile] at h
  cases h

/-- Once there is a plan, compilation returns on compilable graphs. -/
lemma compilePlan_ok (G : AcceptedGraph) (hl : ∀ n ∈ G.graph.nodes, MilBackend.Lowerable G.graph n)
    {plan : ExecutionPlan} (hplan : buildPlan G.graph = .ok plan) (dirt : ℕ → ℕ → α)
    (fw : AneFramework) (m : Memory α) :
    ∃ r m', compilePlan dirt (MilBackend F fw) G.graph fw m plan = (.ok r, m') := by
  obtain ⟨-, groups, hgroups, rfl⟩ := buildPlan_eq_ok hplan
  obtain ⟨S⟩ := FusionRules.exists_schedule G.wf
  obtain rfl : S.groups = groups := Except.ok.inj (S.computed.symm.trans hgroups)
  obtain ⟨io, hio⟩ := chooseIoAlloc_ok (g := G.graph) {
      groups := S.groups
      tensorBytes := Table.ofList (·.id) (·.shape.bytes) G.graph.tensors
      bufferIds := S.groups.map (·.output)
      graphInputIds := G.graph.graphInputs
      graphOutputIds := G.graph.graphOutputs } fun id hid =>
    (G.wf.tensor_ok ((List.mem_append.mp hid).elim (G.wf.graphInput_lt id)
      (G.wf.graphOutput_lt id))).imp fun _ h => h.1
  obtain ⟨r, m', hr⟩ : ∃ r m', compileGroups dirt (MilBackend F fw) G.graph io S.groups [] ∅ m =
      (.ok r, m') := compileGroups_ok S.groups [] ∅ m
    (fun group hmem => by
      obtain ⟨n, hn, hout⟩ := S.group_output hmem
      rw [← hout]
      exact (G.wf.tensor_ok (G.wf.output_lt n (S.member_mem hmem hn))).imp fun _ h => h.1)
    (fun group hmem name => (MilBackend.compileGroup_ok_iff G (S.grouped hmem) fw name).mpr
      fun n hn => hl n (S.member_mem hmem hn))
  unfold compilePlan
  split_ifs
  · exact ⟨_, _, rfl⟩
  · rw [hio]
    simp only [hr]
    cases r <;> exact ⟨_, _, rfl⟩

/-- Once there is a plan, a node that cannot be lowered makes compilation throw. -/
lemma compilePlan_error (G : AcceptedGraph) {n : GraphNode} (hn : n ∈ G.graph.nodes)
    (hl : ¬ MilBackend.Lowerable G.graph n) {plan : ExecutionPlan}
    (hplan : buildPlan G.graph = .ok plan) (dirt : ℕ → ℕ → α) (m : Memory α) :
    ¬ ∃ r m', compilePlan dirt (MilBackend F ⟨true, fun _ _ => true⟩) G.graph
      ⟨true, fun _ _ => true⟩ m plan = (.ok r, m') := by
  obtain ⟨-, groups, hgroups, rfl⟩ := buildPlan_eq_ok hplan
  obtain ⟨S⟩ := FusionRules.exists_schedule G.wf
  obtain rfl : S.groups = groups := Except.ok.inj (S.computed.symm.trans hgroups)
  obtain ⟨group, hmem, hng⟩ := S.exists_group hn
  rintro ⟨r, m', h⟩
  unfold compilePlan at h
  rw [if_neg (by decide)] at h
  split at h
  · cases h
  rename_i io hio
  have hloop : ¬ ∃ r m', compileGroups dirt (MilBackend F ⟨true, fun _ _ => true⟩) G.graph io
      S.groups [] ∅ m = (.ok r, m') :=
    compileGroups_error compileGroup_ne_none ⟨group, hmem, fun name hr =>
      hl ((MilBackend.compileGroup_ok_iff G (S.grouped hmem) _ name).mp hr n hng)⟩
  split at h
  · cases h
  · rename_i h'
    exact hloop ⟨_, _, h'⟩
  · rename_i h'
    exact hloop ⟨_, _, h'⟩

/-- An accepted graph has a plan. -/
lemma buildPlan_ok (G : AcceptedGraph) : ∃ plan, buildPlan G.graph = .ok plan := by
  obtain ⟨S⟩ := FusionRules.exists_schedule G.wf
  exact ⟨_, bind_eq_ok.mpr ⟨[], G.accepted, by
    rw [if_neg (by simp), S.computed]
    rfl⟩⟩

/-- What can go wrong in `build_plan` other than by an exception. -/
lemma buildPlan_undefined (hg : Built g) {what : String}
    (h : buildPlan g = .error (.UndefinedBehaviour what)) :
    checkStructure g = [] ∧ ∃ n ∈ g.nodes, ZeroShuffle n := by
  rcases bind_eq_error.mp h with hval | ⟨errors, hval, h⟩
  · exact (validate_error_iff hg.wf).mp ⟨_, hval⟩
  · split_ifs at h with hnone
    · cases h
    · obtain rfl := not_not.mp hnone
      obtain ⟨plan, hplan⟩ := buildPlan_ok ⟨g, hg, hval⟩
      rw [buildPlan, hval, ok_bind, if_neg (by simp)] at hplan
      rw [hplan] at h
      cases h

/-- **Totality of compilation.**  With the runtime available, whatever the framework compiles and
whatever the pool holds, compiling a graph object with `MilBackend` returns, a graph or a null
pointer, if and only if the graph is compilable. -/
theorem compile_total_iff [Inhabited α] (hg : Built g) :
    (∀ (dirt : ℕ → ℕ → α) (fw : AneFramework) (m : Memory α), fw.available = true →
      ∃ r m', compile dirt (MilBackend F fw) g fw m = (.ok r, m')) ↔ Compilable g := by
  constructor
  · intro h
    refine ⟨fun hstruct n hn hzero => ?_, fun hval n hn => ?_⟩
    · obtain ⟨e, he⟩ := (validate_error_iff hg.wf).mpr ⟨hstruct, n, hn, hzero⟩
      obtain ⟨what, rfl⟩ := validate_error_undefined hg.wf he
      have hplan : buildPlan g = .error (.UndefinedBehaviour what) :=
        bind_eq_error.mpr (Or.inl he)
      obtain ⟨r, m', hr⟩ := h default ⟨true, fun _ _ => true⟩ (PoolUsers.start 0).memory rfl
      rw [compile, hplan] at hr
      cases hr
    · by_contra hl
      obtain ⟨plan, hplan⟩ := buildPlan_ok ⟨g, hg, hval⟩
      refine compilePlan_error (F := F) (α := α) ⟨g, hg, hval⟩ hn hl hplan default
        (PoolUsers.start 0).memory ?_
      obtain ⟨r, m', hr⟩ := h default ⟨true, fun _ _ => true⟩ (PoolUsers.start 0).memory rfl
      rw [compile, hplan] at hr
      exact ⟨r, m', hr⟩
  · rintro ⟨hzero, hlower⟩ dirt fw m -
    unfold compile
    cases hplan : buildPlan g with
    | ok plan =>
        have hval := (buildPlan_eq_ok hplan).1
        exact compilePlan_ok ⟨g, hg, hval⟩ (hlower hval) hplan dirt fw m
    | error e =>
        cases e with
        | UndefinedBehaviour w =>
            obtain ⟨hstruct, n, hn, hz⟩ := buildPlan_undefined hg hplan
            exact absurd hz (hzero hstruct n hn)
        | _ => exact ⟨_, _, rfl⟩

/-- A graph of one `CAST`. -/
def castGraph : AneGraph :=
  AneGraph.build [.AddInput "x" ⟨1, 1, 1, 16⟩, .AddOp .Cast [0] ⟨1, 1, 1, 16⟩ [], .MarkOutput 1 ""]

/-- A graph of one `RELU`. -/
def reluGraph : AneGraph :=
  AneGraph.build [.AddInput "x" ⟨1, 1, 1, 16⟩, .AddOp .Relu [0] ⟨1, 1, 1, 16⟩ [], .MarkOutput 1 ""]

theorem compile_total_iff_reluGraph : Compilable reluGraph ∧ ∃ r m',
    compile (fun _ _ => 0) (MilBackend Unit ⟨true, fun _ _ => false⟩) reluGraph
      ⟨true, fun _ _ => false⟩ (PoolUsers.start 4 : PoolUsers ℕ).memory = (.ok r, m') :=
  ⟨by decide, (compile_total_iff ⟨_, rfl⟩).mpr (by decide) (fun _ _ => 0) ⟨true, fun _ _ => false⟩
    (PoolUsers.start 4 : PoolUsers ℕ).memory rfl⟩

/-- The validator accepts a `CAST`, and the lowering throws. -/
theorem cast_compilation_throws : validate castGraph = .ok [] ∧
    (compile (fun _ _ => 0) (MilBackend Unit ⟨true, fun _ _ => true⟩) castGraph
      ⟨true, fun _ _ => true⟩ (PoolUsers.start 4 : PoolUsers ℕ).memory).1 =
      .error (.RuntimeError "MilBackend::node_to_fragment: unsupported op 8") :=
  ⟨by decide, rfl⟩

end GraphCompiler

end Libane
