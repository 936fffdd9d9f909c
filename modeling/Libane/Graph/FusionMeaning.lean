import Libane.Graph.FusionPartition

/-!
# Fusion preserves meaning

The nodes of a graph form a straight-line program: a node reads its operands and defines its
output.  A fusion group is a chunk of that program.  `MilBackend::compile_group` wires a group
through a running chain variable, started at the group's first input, which takes the place of
every node's first operand; the other operands are looked up by tensor id among the group's
inputs and the nodes emitted before.  That is `StraightLine.runChunk`.

* `evalNodes`, `evalGroups` — the two evaluations, over any interpretation of the nodes.
* `Grouped.chained`, `Grouped.sides_scoped` — the wiring of a group reads what the nodes read.
* `fusion_preserves_meaning` — the two evaluations agree on every value that survives fusion.
-/

namespace Libane

namespace FusionRules

open StraightLine

variable {V : Type*}

/-! ## The two evaluations -/

/-- The values at the start: the graph inputs and nothing else. -/
def inputEnv (g : AneGraph) (values : ℕ → V) : Env ℕ V :=
  fun id => if id ∈ g.graphInputs then some (values id) else none

/-- The nodes one by one, in insertion order. -/
def evalNodes (g : AneGraph) (sem : GraphNode → List V → V) (values : ℕ → V) :
    Option (Env ℕ V) :=
  run (·.output) (·.inputs) sem (inputEnv g values) g.nodes

/-- A group as `compile_group` wires it. -/
def chunkOf (g : AneGraph) (group : FusionGroup) : Chunk ℕ GraphNode where
  externals := group.inputs
  body := members g group
  result := group.output

/-- The groups one after another; of each, only the output is kept. -/
def evalGroups (g : AneGraph) (sem : GraphNode → List V → V) (values : ℕ → V)
    (groups : List FusionGroup) : Option (Env ℕ V) :=
  runChunks (·.output) (·.inputs) sem (inputEnv g values) (groups.map (chunkOf g))

/-! ## The node list is well scoped -/

/-- Every operand of a node is a graph input or the output of an earlier node. -/
lemma nodes_wellScoped {g : AneGraph} (hg : g.Wf) :
    WellScoped (·.output) (·.inputs) {i | i ∈ g.graphInputs} g.nodes := by
  refine wellScoped_iff_split.mpr fun before n after hsplit i hi => ?_
  have hn : n ∈ g.nodes := by rw [hsplit]; simp
  refine (hg.tensor_source i (hg.input_lt hn hi)).imp_right ?_
  rintro ⟨m, hm, rfl⟩
  have hlt := hg.input_lt_output n hn _ hi
  have hmono := hg.output_strictMono
  rw [hsplit, List.pairwise_map, List.pairwise_append, List.pairwise_cons] at hmono
  rw [hsplit] at hm
  rcases List.mem_append.mp hm with hm | hm
  · exact List.mem_map_of_mem hm
  · rcases List.mem_cons.mp hm with rfl | hm
    · exact absurd hlt (lt_irrefl _)
    · exact absurd (hmono.2.1.1 m hm) (not_lt.mpr hlt.le)

/-! ## The wiring of one group -/

section Wiring

variable {g : AneGraph} {group : FusionGroup} {ms : List GraphNode}

/-- The chain input comes first: it is the first operand of the first member. -/
lemma Grouped.head_inputs (h : Grouped g group ms) (hne : ∀ m ∈ ms, m.inputs ≠ []) :
    ∃ n, ms.head? = some n ∧ group.inputs.head? = n.inputs.head? ∧ group.inputs ≠ [] := by
  induction h with
  | start n hn => exact ⟨n, rfl, rfl, hne n (by simp)⟩
  | extend group ms last n hn hlast hext h ih =>
      obtain ⟨m, hm, hhead, hins⟩ := ih fun m hm => hne m (List.mem_append_left _ hm)
      have hkeep := head?_addSides n.inputs.tail group.inputs hins
      refine ⟨m, by rw [List.head?_append_of_ne_nil _ h.ne_nil, hm], hkeep.trans hhead, ?_⟩
      intro (hnil : addSides group.inputs n.inputs.tail = [])
      rw [hnil, List.head?_nil, eq_comm, List.head?_eq_none_iff] at hkeep
      exact hins hkeep

/-- The running value always stands for the first operand. -/
lemma Grouped.chained (h : Grouped g group ms) (hne : ∀ m ∈ ms, m.inputs ≠ []) :
    ∀ x, group.inputs.head? = some x → Chained GraphNode.output GraphNode.inputs x ms := by
  induction h with
  | start n hn => exact fun x hx => ⟨hx, trivial⟩
  | extend group ms last n hn hlast hext h ih =>
      intro x hx
      have hne' : ∀ m ∈ ms, m.inputs ≠ [] := fun m hm => hne m (List.mem_append_left _ hm)
      obtain ⟨-, -, -, hins⟩ := h.head_inputs hne'
      rw [extendGroup, head?_addSides _ _ hins] at hx
      refine (chained_concat h.ne_nil).mpr ⟨ih hne' x hx, ?_⟩
      rw [List.getLast?_eq_some_getLast h.ne_nil, Option.some.injEq] at hlast
      rw [hlast]
      exact hext.head_eq

/-- Every other operand is listed among the group's inputs. -/
lemma Grouped.sides_scoped (h : Grouped g group ms) :
    WellScoped GraphNode.output (fun n => n.inputs.tail) {i | i ∈ group.inputs} ms := by
  induction h with
  | start n hn => exact ⟨fun i hi => List.mem_of_mem_tail hi, trivial⟩
  | extend group ms last n hn hlast hext h ih =>
      refine wellScoped_append.mpr ⟨ih.mono fun i hi => ?_, fun i hi => ?_, trivial⟩
      · exact (mem_addSides _ _).mpr (Or.inl hi)
      · exact Or.inl ((mem_addSides _ _).mpr (Or.inr hi))

end Wiring

/-! ## The whole schedule -/

/-- The values kept when the groups `before` have run. -/
def kept (g : AneGraph) (before : List FusionGroup) : Set ℕ :=
  {i | i ∈ g.graphInputs ∨ ∃ earlier ∈ before, earlier.output = i}

lemma Schedule.group_output {g : AneGraph} (S : Schedule g) {group : FusionGroup}
    (h : group ∈ S.groups) : ∃ m ∈ members g group, m.output = group.output := by
  obtain ⟨m, hm⟩ : ∃ m, (members g group).getLast? = some m :=
    Option.isSome_iff_exists.mp (by simpa using (S.grouped h).ne_nil)
  exact ⟨m, List.mem_of_getLast? hm, ((S.grouped h).output_eq hm).symm⟩

/-- The outputs of the groups are pairwise distinct. -/
lemma Schedule.outputs_nodup {g : AneGraph} (hg : g.Wf) (S : Schedule g) :
    (S.groups.map (·.output)).Nodup := by
  have hsuffix : ∀ (after before : List FusionGroup), S.groups = before ++ after →
      (after.map (·.output)).Nodup := by
    intro after
    induction after with
    | nil => exact fun _ _ => List.nodup_nil
    | cons group after ih =>
        intro before h
        refine List.nodup_cons.mpr ⟨fun hmem => ?_, ih (before ++ [group]) (by rw [h]; simp)⟩
        obtain ⟨later, hlater, heq⟩ := List.mem_map.mp hmem
        obtain ⟨a, ha, hao⟩ := S.group_output (show later ∈ S.groups by rw [h]; simp [hlater])
        obtain ⟨b, hb, hbo⟩ := S.group_output (show group ∈ S.groups by rw [h]; simp)
        have := (S.output_lt_of_split hg h).2 later hlater a ha b hb
        simp only at heq
        omega
  exact hsuffix S.groups [] rfl

/-- One group of a schedule, as a chunk after the groups before it. -/
lemma Schedule.chunkOk {g : AneGraph} (hg : g.Wf) (S : Schedule g)
    (hne : ∀ n ∈ g.nodes, n.inputs ≠ []) {before after : List FusionGroup} {group : FusionGroup}
    (h : S.groups = before ++ group :: after) :
    ChunkOk GraphNode.output GraphNode.inputs (kept g before) (chunkOf g group) := by
  have hmem : group ∈ S.groups := by rw [h]; simp
  have hgroup := S.grouped hmem
  have hne' : ∀ m ∈ members g group, m.inputs ≠ [] := fun m hm => hne m (S.member_mem hmem hm)
  obtain ⟨-, -, -, hins⟩ := hgroup.head_inputs hne'
  exact {
    externals_kept := fun i hi => S.input_available hg h hi
    chained := hgroup.chained hne'
    sides := hgroup.sides_scoped
    externals_ne := hins
    body_ne := hgroup.ne_nil
    result_eq := fun hb => hgroup.output_eq (List.getLast?_eq_some_getLast hb)
    fresh := by
      rintro m hm (hin | ⟨earlier, he, heq⟩)
      · exact hg.graphInput_ne_output _ hin m (S.member_mem hmem hm) rfl
      · have hearlier : earlier ∈ S.groups := by rw [h]; exact List.mem_append_left _ he
        obtain ⟨a, ha, hao⟩ := S.group_output hearlier
        have := (S.output_lt_of_split hg h).1 earlier he a ha m hm
        omega }

/-- The groups of a schedule, as chunks. -/
lemma Schedule.chunksOk {g : AneGraph} (hg : g.Wf) (S : Schedule g)
    (hne : ∀ n ∈ g.nodes, n.inputs ≠ []) :
    ∀ (after before : List FusionGroup), S.groups = before ++ after →
      ChunksOk GraphNode.output GraphNode.inputs (kept g before) (after.map (chunkOf g))
  | [], _, _ => trivial
  | group :: after, before, h => by
      refine ⟨S.chunkOk hg hne h, ?_⟩
      have hkept : insert (chunkOf g group).result (kept g before) =
          kept g (before ++ [group]) := by
        ext i
        simp only [kept, chunkOf, Set.mem_insert_iff, Set.mem_ofPred_eq, List.mem_append,
          List.mem_singleton, or_and_right, exists_or, exists_eq_left, @eq_comm _ i]
        exact or_comm.trans or_assoc
      rw [hkept]
      exact S.chunksOk hg hne after (before ++ [group]) (by rw [h]; simp)

/-- **Fusion preserves meaning.**  For every accepted graph, every interpretation of its nodes and
all input values, neither evaluation reads an undefined tensor, and they agree on the output of
every group and on every marked output that a node produces. -/
theorem fusion_preserves_meaning (G : AcceptedGraph) {V : Type*} (sem : GraphNode → List V → V)
    (values : ℕ → V) : ∃ groups nodewise groupwise,
      computeGroups G.graph = .ok groups ∧
      evalNodes G.graph sem values = some nodewise ∧
      evalGroups G.graph sem values groups = some groupwise ∧
      (∀ group ∈ groups, groupwise group.output = nodewise group.output ∧
        (nodewise group.output).isSome) ∧
      (∀ o ∈ G.graph.graphOutputs, (∃ n ∈ G.graph.nodes, n.output = o) →
        groupwise o = nodewise o ∧ (nodewise o).isSome) := by
  have hg := G.wf
  obtain ⟨S⟩ := exists_schedule hg
  have hstart : ∀ i ∈ {i | i ∈ G.graph.graphInputs}, (inputEnv G.graph values i).isSome := by
    intro i (hi : i ∈ G.graph.graphInputs)
    rw [inputEnv, if_pos hi]
    rfl
  obtain ⟨nodewise, hnode⟩ : ∃ nodewise, evalNodes G.graph sem values = some nodewise :=
    (nodes_wellScoped hg).run_total hstart
  have hchunks := S.chunksOk hg (fun n hn => G.inputs_ne_nil hn) S.groups [] rfl
  have hbodies : (S.groups.map (chunkOf G.graph)).flatMap Chunk.body = G.graph.nodes := by
    rw [List.flatMap_map]
    exact S.covers
  have hrun : run (·.output) (·.inputs) sem (inputEnv G.graph values)
      ((S.groups.map (chunkOf G.graph)).flatMap Chunk.body) = some nodewise := by
    rw [hbodies]
    exact hnode
  obtain ⟨groupwise, hgroup, hagree⟩ :=
    run_chunks hchunks (fun i hi => ⟨rfl, hstart i (by simpa [kept] using hi)⟩) hrun
  have hout : ∀ group ∈ S.groups, groupwise group.output = nodewise group.output ∧
      (nodewise group.output).isSome := by
    intro group hgroup
    refine hagree _ (Or.inr ?_)
    rw [List.map_map]
    exact List.mem_map_of_mem (f := Chunk.result ∘ chunkOf G.graph) hgroup
  refine ⟨S.groups, nodewise, groupwise, S.computed, hnode, hgroup, hout, ?_⟩
  rintro o ho ⟨n, hn, rfl⟩
  obtain ⟨group, hmem, hng⟩ := S.exists_group hn
  rw [(S.grouped hmem).last_of_marked hng ho]
  exact hout group hmem

end FusionRules

end Libane
