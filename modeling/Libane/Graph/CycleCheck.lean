import Libane.Foundation.Acyclic
import Libane.Graph.BuilderChecks

/-!
# The cycle check is exact

`check_topo` on node lists that no builder call produces: operands may refer forward, to the node
itself, several times to the same producer, or to no tensor at all.  What the check needs is that
ids are positions and that every output is a tensor of its own.

* `AneGraph.Reads` — "node `v` reads the output of node `u`", the relation the check is about.
* `mem_nodePreds_iff` — the de-duplicated edges of the check are this relation.
* `cycle_check_exact` — the check reports a cycle if and only if the relation has one.
-/

namespace Libane

/-- Node `v` reads the output of node `u`. -/
def AneGraph.Reads (g : AneGraph) (u v : ℕ) : Prop :=
  ∃ m n, g.nodes[u]? = some m ∧ g.nodes[v]? = some n ∧ m.output ∈ n.inputs

namespace GraphValidator

variable {g : AneGraph}

/-! ## The producer map -/

/-- Registering the outputs of nodes leaves other tensors alone. -/
lemma foldl_producer_of_notMem {ns : List GraphNode} {i : ℕ} (table : ℕ → Option (Option ℕ))
    (h : i ∉ ns.map (·.output)) :
    ns.foldl (fun (m : ℕ → Option (Option ℕ)) n => Function.update m n.output (some (some n.id)))
      table i = table i := by
  induction ns generalizing table with
  | nil => rfl
  | cons n ns ih =>
      rw [List.map_cons, List.mem_cons, not_or] at h
      rw [List.foldl_cons, ih _ h.2, Function.update_of_ne h.1]

/-- When outputs are distinct, the map leads from every output to its node. -/
lemma foldl_producer {ns : List GraphNode} {n : GraphNode} (table : ℕ → Option (Option ℕ))
    (hnodup : (ns.map (·.output)).Nodup) (hn : n ∈ ns) :
    ns.foldl (fun (m : ℕ → Option (Option ℕ)) n => Function.update m n.output (some (some n.id)))
      table n.output = some (some n.id) := by
  induction ns generalizing table with
  | nil => cases hn
  | cons m ns ih =>
      rw [List.map_cons, List.nodup_cons] at hnodup
      rw [List.foldl_cons]
      rcases List.mem_cons.mp hn with rfl | hn
      · rw [foldl_producer_of_notMem _ hnodup.1, Function.update_self]
      · exact ih _ hnodup.2 hn

/-- `tensor_producer` is exact: a tensor's producer is the node whose output it is. -/
lemma tensorProducer_eq_iff (hout : (g.nodes.map (·.output)).Nodup) {i p : ℕ} :
    tensorProducer g i = some (some p) ↔ ∃ m ∈ g.nodes, m.output = i ∧ m.id = p := by
  constructor
  · exact tensorProducer_node
  · rintro ⟨m, hm, rfl, rfl⟩
    exact foldl_producer _ hout hm

/-! ## Edges -/

section Edges

variable (hids : ∀ i (n : GraphNode), g.nodes[i]? = some n → n.id = i)
  (hout : (g.nodes.map (·.output)).Nodup)
include hids hout

/-- The edges of `check_topo` are the pairs of nodes of which one reads the other's output. -/
lemma mem_nodePreds_iff {u v : ℕ} : u ∈ nodePreds g v ↔ g.Reads u v := by
  simp only [nodePreds, predecessors, Finset.mem_filter, List.mem_toFinset, List.mem_filterMap,
    Option.join_eq_some_iff, tensorProducer_eq_iff hout, AneGraph.Reads]
  constructor
  · rintro ⟨⟨i, hi, m, hm, rfl, rfl⟩, -⟩
    cases hv : g.nodes[v]? with
    | none => simp [hv] at hi
    | some n => exact ⟨m, n, getElem?_node_id hids hm, rfl, by simpa [hv] using hi⟩
  · rintro ⟨m, n, hu, hv, hread⟩
    have hm : m ∈ g.nodes := List.mem_of_getElem? hu
    have hmu : m.id = u := hids u m hu
    refine ⟨⟨m.output, by simpa [hv] using hread, m, hm, rfl, hmu⟩, ?_⟩
    exact hmu ▸ node_id_lt hids hm

lemma nodePreds_eq_reads : (fun u v => u ∈ nodePreds g v) = g.Reads := by
  funext u v
  exact propext (mem_nodePreds_iff hids hout)

end Edges

/-! ## The check -/

/-- The queue of `check_topo` and the nodes that wait are at most as many as the nodes. -/
lemma start_measure (hids : ∀ i (n : GraphNode), g.nodes[i]? = some n → n.id = i) :
    ((g.nodes.map (·.id)).filter fun i => (topoTables g).inDegree i = 0).length +
      (waiting (g.nodes.map (·.id)) (topoTables g).inDegree).length ≤ g.nodes.length := by
  have hpos : ∀ i ∈ g.nodes.map (·.id), 0 ≤ (topoTables g).inDegree i := fun i hi => by
    rw [node_ids_eq hids, List.mem_range] at hi
    rw [(kahnState_start hids).degree_eq i (Finset.mem_range.mpr hi)]
    exact Nat.cast_nonneg _
  have hsplit := List.length_eq_length_filter_add
    (fun i => decide ((topoTables g).inDegree i = 0)) (l := g.nodes.map (·.id))
  have hwait : waiting (g.nodes.map (·.id)) (topoTables g).inDegree =
      (g.nodes.map (·.id)).filter fun i => !decide ((topoTables g).inDegree i = 0) :=
    List.filter_congr fun i hi => by
      have := hpos i hi
      rw [← decide_not, decide_eq_decide]
      omega
  rw [hwait, ← hsplit, List.length_map]

/-- **The cycle check is exact.**  On nodes whose ids are their positions and whose outputs are
distinct, whatever their operands are, more fuel changes nothing, for the queue is empty by then,
and `check_topo` reports a cycle if and only if the relation "reads the output of" has one. -/
theorem cycle_check_exact (g : AneGraph)
    (hids : ∀ i (n : GraphNode), g.nodes[i]? = some n → n.id = i)
    (hout : (g.nodes.map (·.output)).Nodup) :
    (∀ extra, let t := topoTables g
      let q := (g.nodes.map (·.id)).filter fun i => t.inDegree i = 0
      kahnLoop t.successors (g.nodes.length + extra) q t.inDegree 0 =
        kahnLoop t.successors g.nodes.length q t.inDegree 0) ∧
    (checkTopo g ≠ [] ↔ HasCycle g.Reads) := by
  have hnodup : (g.nodes.map (·.id)).Nodup := node_ids_eq hids ▸ List.nodup_range
  constructor
  · intro extra
    refine kahnLoop_fuel hnodup (fun p i hi => ?_) _ extra _ _ 0 (start_measure hids)
    rw [topoTables_successors hids, List.mem_map] at hi
    obtain ⟨n, hn, rfl⟩ := hi
    exact List.mem_map_of_mem (List.mem_filter.mp hn).1
  · have hrange : ∀ u v, g.Reads u v → v ∈ Finset.range g.nodes.length := by
      rintro u v ⟨m, n, -, hv, -⟩
      exact Finset.mem_range.mpr (List.getElem?_eq_some_iff.mp hv).1
    have hsource : ∀ u v, g.Reads u v → u ∈ Finset.range g.nodes.length := by
      rintro u v ⟨m, n, hu, -, -⟩
      exact Finset.mem_range.mpr (List.getElem?_eq_some_iff.mp hu).1
    rw [ne_eq, checkTopo_eq_nil_iff hids, nodePreds_eq_reads hids hout, hasCycle_iff hsource,
      not_forall₂]
    constructor
    · rintro ⟨v, -, hv⟩
      exact ⟨v, hv⟩
    · rintro ⟨v, hv⟩
      -- a position without a node reads nothing, so it is accessible
      have hmem : v ∈ Finset.range g.nodes.length := by
        by_contra hout'
        exact hv (Acc.intro v fun u hu => absurd (hrange u v hu) hout')
      exact ⟨v, hmem, hv⟩

/-- Two nodes that read each other. -/
def twoCycle : AneGraph where
  nodes := [⟨0, .Relu, [1], 0, [], ""⟩, ⟨1, .Add, [0, 0, 7], 1, [], ""⟩]

theorem cycle_check_exact_twoCycle : checkTopo twoCycle ≠ [] ∧ HasCycle twoCycle.Reads := by
  have hexact := cycle_check_exact twoCycle
    (fun i n h => by
      match i, h with
      | 0, h => exact congrArg GraphNode.id (Option.some.inj h).symm
      | 1, h => exact congrArg GraphNode.id (Option.some.inj h).symm)
    (by decide)
  have hcheck : checkTopo twoCycle ≠ [] := by decide
  exact ⟨hcheck, hexact.2.mp hcheck⟩

end GraphValidator

end Libane
