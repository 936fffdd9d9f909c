import Libane.Foundation.Names
import Libane.Graph.FusionMeaning

/-!
# What the validator cannot find in a graph object

Three of the validator's checks look for defects that builder calls cannot produce: invalid
shapes, dangling edges, cycles.  On graph objects they are silent.

* `KahnState` — where the queue loop of `check_topo` stands: the popped nodes, the queue, and
  counters that say how many predecessors have not been popped.
* `kahnLoop_eq_card_iff` — the loop pops every node if and only if each is reached by descending
  chains only; `kahnLoop_all` is the case of edges from smaller to larger ids.
* `checkShapes_eq_nil`, `checkEdges_eq_nil`, `checkTopo_eq_nil` — the silence of the checks.
* `AneGraph.builder_invariant` — what holds after every sequence of builder calls, failing ones
  included.
-/

namespace Libane

open AneGraph

namespace GraphValidator

/-! ## Kahn's algorithm -/

/-- Adjacency lists of a finite graph: `successors` holds the edges that `preds` describes. -/
structure Adjacency (ids : Finset ℕ) (preds : ℕ → Finset ℕ) (successors : ℕ → List ℕ) :
    Prop where
  successors_nodup : ∀ p ∈ ids, (successors p).Nodup
  mem_successors : ∀ p ∈ ids, ∀ i, i ∈ successors p ↔ i ∈ ids ∧ p ∈ preds i
  preds_subset : ∀ i ∈ ids, preds i ⊆ ids

/-- Adjacency lists of a finite graph whose edges go from smaller to larger ids. -/
structure Ascending (ids : Finset ℕ) (preds : ℕ → Finset ℕ) (successors : ℕ → List ℕ) :
    Prop extends Adjacency ids preds successors where
  preds_lt : ∀ i ∈ ids, ∀ p ∈ preds i, p < i

/-- Where the queue loop stands after the nodes of `done` were popped. -/
structure KahnState (ids : Finset ℕ) (preds : ℕ → Finset ℕ) (done : Finset ℕ) (q : List ℕ)
    (d : ℕ → ℤ) : Prop where
  done_subset : done ⊆ ids
  queue_nodup : q.Nodup
  queue_mem : ∀ i ∈ q, i ∈ ids ∧ i ∉ done
  degree_eq : ∀ i ∈ ids, d i = (preds i \ done).card
  zero_iff : ∀ i ∈ ids, d i = 0 ↔ i ∈ done ∨ i ∈ q

/-- Releasing different successors: each counter falls by one, and those that were at one join
the queue. -/
lemma releaseSuccessors_eq : ∀ {succs : List ℕ}, succs.Nodup → ∀ (q : List ℕ) (d : ℕ → ℤ),
    releaseSuccessors succs q d =
      (q ++ succs.filter (d · = 1), fun i => if i ∈ succs then d i - 1 else d i)
  | [], _, q, d => by simp [releaseSuccessors]
  | s :: succs, hnodup, q, d => by
      rw [List.nodup_cons] at hnodup
      rw [releaseSuccessors, releaseSuccessors_eq hnodup.2, Function.update_self]
      have hother : ∀ i ∈ succs, Function.update d s (d s - 1) i = d i := fun i hi =>
        Function.update_of_ne (fun h : i = s => hnodup.1 (h ▸ hi)) _ _
      refine Prod.ext ?_ (funext fun i => ?_)
      · have hfilter : succs.filter (Function.update d s (d s - 1) · = 1) =
            succs.filter (d · = 1) := List.filter_congr fun i hi => by rw [hother i hi]
        rw [hfilter, List.filter_cons]
        by_cases h : d s = 1
        · simp [h]
        · have h0 : ¬ d s - 1 = 0 := by omega
          simp [h, h0]
      · by_cases his : i = s
        · subst his
          simp [hnodup.1]
        · simp [his]

section Kahn

variable {ids : Finset ℕ} {preds : ℕ → Finset ℕ} {successors : ℕ → List ℕ} {done : Finset ℕ}
  {q : List ℕ} {d : ℕ → ℤ}

/-- **One round of the queue loop.** -/
lemma KahnState.pop {nid : ℕ} (ha : Adjacency ids preds successors)
    (h : KahnState ids preds done (nid :: q) d) :
    KahnState ids preds (insert nid done) (releaseSuccessors (successors nid) q d).1
      (releaseSuccessors (successors nid) q d).2 := by
  obtain ⟨hnid, hnew⟩ := h.queue_mem nid List.mem_cons_self
  obtain ⟨hnq, hq⟩ := List.nodup_cons.mp h.queue_nodup
  have hsucc := ha.mem_successors nid hnid
  have hzero : d nid = 0 := (h.zero_iff nid hnid).mpr (Or.inr List.mem_cons_self)
  rw [releaseSuccessors_eq (ha.successors_nodup nid hnid)]
  show KahnState ids preds (insert nid done) (q ++ (successors nid).filter (d · = 1))
    fun i => if i ∈ successors nid then d i - 1 else d i
  exact {
    done_subset := Finset.insert_subset hnid h.done_subset
    queue_nodup := by
      refine hq.append ((ha.successors_nodup nid hnid).filter _) fun i hi hi' => ?_
      have h1 : d i = 1 := by simpa using (List.mem_filter.mp hi').2
      have h0 := (h.zero_iff i (h.queue_mem i (List.mem_cons_of_mem nid hi)).1).mpr
        (Or.inr (List.mem_cons_of_mem nid hi))
      omega
    queue_mem := by
      intro i hi
      rcases List.mem_append.mp hi with hiq | hif
      · obtain ⟨hids, hdone⟩ := h.queue_mem i (List.mem_cons_of_mem nid hiq)
        refine ⟨hids, fun hmem => ?_⟩
        rcases Finset.mem_insert.mp hmem with rfl | hmem
        · exact hnq hiq
        · exact hdone hmem
      · obtain ⟨his, h1⟩ := List.mem_filter.mp hif
        have h1 : d i = 1 := by simpa using h1
        refine ⟨((hsucc i).mp his).1, fun hmem => ?_⟩
        rcases Finset.mem_insert.mp hmem with rfl | hmem
        · omega
        · have := (h.zero_iff i ((hsucc i).mp his).1).mpr (Or.inl hmem)
          omega
    degree_eq := by
      intro i hi
      have hd := h.degree_eq i hi
      by_cases hp : nid ∈ preds i
      · have hmem : nid ∈ preds i \ done := Finset.mem_sdiff.mpr ⟨hp, hnew⟩
        have hcard := Finset.card_erase_add_one hmem
        rw [if_pos ((hsucc i).mpr ⟨hi, hp⟩), hd, Finset.sdiff_insert, ← hcard]
        simp
      · rw [if_neg fun his => hp ((hsucc i).mp his).2, hd, Finset.sdiff_insert,
          Finset.erase_eq_of_notMem fun hmem => hp (Finset.mem_sdiff.mp hmem).1]
    zero_iff := by
      intro i hi
      have hz := h.zero_iff i hi
      have hd := h.degree_eq i hi
      rw [List.mem_cons] at hz
      rw [Finset.mem_insert, List.mem_append, List.mem_filter]
      by_cases his : i ∈ successors nid
      · have hpos : 0 < (preds i \ done).card :=
          Finset.card_pos.mpr ⟨nid, Finset.mem_sdiff.mpr ⟨((hsucc i).mp his).2, hnew⟩⟩
        have hnz : ¬ d i = 0 := by omega
        have hne : i ≠ nid := by
          rintro rfl
          exact hnz hzero
        simp only [his, if_true, decide_eq_true_eq, true_and]
        constructor
        · intro h1
          exact Or.inr (Or.inr (by omega))
        · rintro ((rfl | hdone) | hiq | h1)
          · exact absurd rfl hne
          · exact absurd (hz.mpr (Or.inl hdone)) hnz
          · exact absurd (hz.mpr (Or.inr (Or.inr hiq))) hnz
          · omega
      · simp only [his, if_false, false_and, or_false]
        rw [hz]
        tauto }

/-- The predecessors of a queued node were popped. -/
lemma KahnState.preds_subset_done (h : KahnState ids preds done q d) {i : ℕ} (hi : i ∈ q) :
    preds i ⊆ done := by
  obtain ⟨hids, -⟩ := h.queue_mem i hi
  have hzero : d i = 0 := (h.zero_iff i hids).mpr (Or.inr hi)
  rw [h.degree_eq i hids, Nat.cast_eq_zero, Finset.card_eq_zero] at hzero
  exact Finset.sdiff_eq_empty_iff_subset.mp hzero

/-- When the queue is empty, every node reached by descending chains only was popped: a lowest
one that was not would have all its predecessors popped. -/
lemma KahnState.mem_done (ha : Adjacency ids preds successors)
    (h : KahnState ids preds done [] d) {i : ℕ} (hacc : Acc (fun p j => p ∈ preds j) i)
    (hi : i ∈ ids) : i ∈ done := by
  induction hacc with
  | intro i _ ih =>
      have hpreds : preds i \ done = ∅ := Finset.sdiff_eq_empty_iff_subset.mpr fun p hp =>
        ih p hp (ha.preds_subset i hi hp)
      have hzero : d i = 0 := by rw [h.degree_eq i hi, hpreds, Finset.card_empty]; rfl
      simpa using (h.zero_iff i hi).mp hzero

/-- **The queue loop to its end.**  It stops with an empty queue, and the popped nodes are
accessible when they were so before. -/
theorem kahnLoop_end (ha : Adjacency ids preds successors) :
    ∀ {fuel : ℕ} {done : Finset ℕ} {q : List ℕ} {d : ℕ → ℤ},
      KahnState ids preds done q d → (∀ i ∈ done, Acc (fun p j => p ∈ preds j) i) →
      ids.card ≤ done.card + fuel →
      ∃ done' d', KahnState ids preds done' [] d' ∧ (∀ i ∈ done', Acc (fun p j => p ∈ preds j) i) ∧
        kahnLoop successors fuel q d done.card = done'.card
  | 0, done, q, d, h, hacc, hfuel => by
      have hdone : done = ids := Finset.eq_of_subset_of_card_le h.done_subset (by omega)
      have hq : q = [] := List.eq_nil_iff_forall_not_mem.mpr fun i hi =>
        (h.queue_mem i hi).2 (hdone ▸ (h.queue_mem i hi).1)
      exact ⟨done, d, hq ▸ h, hacc, rfl⟩
  | fuel + 1, done, [], d, h, hacc, _ => ⟨done, d, h, hacc, rfl⟩
  | fuel + 1, done, nid :: q, d, h, hacc, hfuel => by
      have hcard := Finset.card_insert_of_notMem (h.queue_mem nid List.mem_cons_self).2
      have hpopped : ∀ i ∈ insert nid done, Acc (fun p j => p ∈ preds j) i := by
        intro i hi
        rcases Finset.mem_insert.mp hi with rfl | hi
        · exact Acc.intro _ fun p hp => hacc p (h.preds_subset_done List.mem_cons_self hp)
        · exact hacc i hi
      obtain ⟨done', d', h', hacc', heq⟩ := kahnLoop_end ha (h.pop ha) hpopped
        (show ids.card ≤ (insert nid done).card + fuel by omega)
      refine ⟨done', d', h', hacc', ?_⟩
      rw [← heq, hcard]
      rfl

/-- **What the queue loop counts.**  It pops every node if and only if every node is reached by
descending chains only. -/
theorem kahnLoop_eq_card_iff (ha : Adjacency ids preds successors)
    (h : KahnState ids preds ∅ q d) {fuel : ℕ} (hfuel : ids.card ≤ fuel) :
    kahnLoop successors fuel q d 0 = ids.card ↔
      ∀ i ∈ ids, Acc (fun p j => p ∈ preds j) i := by
  obtain ⟨done, d', hend, hacc, heq⟩ := kahnLoop_end ha h (by simp)
    (show ids.card ≤ (∅ : Finset ℕ).card + fuel by simpa using hfuel)
  rw [Finset.card_empty] at heq
  rw [heq]
  constructor
  · intro hcard
    exact Finset.eq_of_subset_of_card_le hend.done_subset hcard.ge ▸ hacc
  · intro hall
    rw [Finset.Subset.antisymm hend.done_subset fun i hi => hend.mem_done ha (hall i hi) hi]

/-- **The queue loop pops every node** of a graph whose edges ascend. -/
theorem kahnLoop_all (ha : Ascending ids preds successors) (h : KahnState ids preds ∅ q d)
    {fuel : ℕ} (hfuel : ids.card ≤ fuel) : kahnLoop successors fuel q d 0 = ids.card := by
  refine (kahnLoop_eq_card_iff ha.toAdjacency h hfuel).mpr fun i => ?_
  induction i using Nat.strong_induction_on with
  | _ i ih =>
      intro hi
      exact Acc.intro i fun p hp => ih p (ha.preds_lt i hi p hp) (ha.preds_subset i hi hp)

end Kahn

/-! ## The tables of `check_topo` -/

/-- The different nodes that produce one of the tensors. -/
def predecessors (producer : ℕ → Option (Option ℕ)) (size : ℕ) (inputs : List ℕ) : Finset ℕ :=
  (inputs.filterMap fun i => (producer i).join).toFinset.filter (· < size)

section Tables

variable {producer : ℕ → Option (Option ℕ)} {size : ℕ}

lemma predecessors_cons_skip {inp : ℕ} {rest : List ℕ}
    (h : ∀ p, producer inp = some (some p) → size ≤ p) :
    predecessors producer size (inp :: rest) = predecessors producer size rest := by
  ext p
  simp only [predecessors, Finset.mem_filter, List.mem_toFinset, List.mem_filterMap,
    List.exists_mem_cons_iff, Option.join_eq_some_iff]
  constructor
  · rintro ⟨hp | hp, hlt⟩
    · exact absurd hlt (not_lt.mpr (h p hp))
    · exact ⟨hp, hlt⟩
  · rintro ⟨hp, hlt⟩
    exact ⟨Or.inr hp, hlt⟩

lemma predecessors_cons {inp p : ℕ} {rest : List ℕ} (h : producer inp = some (some p))
    (hlt : p < size) :
    predecessors producer size (inp :: rest) = insert p (predecessors producer size rest) := by
  simp [predecessors, h, Finset.filter_insert, hlt]

/-- **The edges into one node.** -/
lemma addEdges_eq (n : GraphNode) : ∀ (inputs seen : List ℕ) (t : TopoTables),
    (addEdges producer size n inputs seen t).inDegree = Function.update t.inDegree n.id
        (t.inDegree n.id + (predecessors producer size inputs \ seen.toFinset).card) ∧
      ∀ p, (addEdges producer size n inputs seen t).successors p = t.successors p ++
        if p ∈ predecessors producer size inputs \ seen.toFinset then [n.id] else []
  | [], seen, t => by simp [addEdges, predecessors]
  | inp :: rest, seen, t => by
      cases hprod : (producer inp).join with
      | none =>
          have hnone : ∀ p, producer inp ≠ some (some p) := fun p hp => by simp [hp] at hprod
          have heq : addEdges producer size n (inp :: rest) seen t =
              addEdges producer size n rest seen t := by
            rw [addEdges]
            split
            · rename_i p hp
              exact absurd hp (hnone p)
            · rfl
          rw [heq, predecessors_cons_skip fun p hp => absurd hp (hnone p)]
          exact addEdges_eq n rest seen t
      | some p =>
          have hp : producer inp = some (some p) := Option.join_eq_some_iff.mp hprod
          by_cases hlt : p < size
          swap
          · have heq : addEdges producer size n (inp :: rest) seen t =
                addEdges producer size n rest seen t := by
              simp only [addEdges, hp]
              rw [if_pos (Or.inl (not_lt.mp hlt))]
            rw [heq, predecessors_cons_skip fun p' hp' => by
              rw [hp] at hp'
              cases hp'
              exact not_lt.mp hlt]
            exact addEdges_eq n rest seen t
          rw [predecessors_cons hp hlt]
          by_cases hseen : p ∈ seen
          · have heq : addEdges producer size n (inp :: rest) seen t =
                addEdges producer size n rest seen t := by
              simp only [addEdges, hp]
              rw [if_pos (Or.inr hseen)]
            rw [heq, Finset.insert_sdiff_of_mem _ (List.mem_toFinset.mpr hseen)]
            exact addEdges_eq n rest seen t
          · -- a new edge
            have hnot : p ∉ seen.toFinset := fun h => hseen (List.mem_toFinset.mp h)
            obtain ⟨hdeg, hsucc⟩ := addEdges_eq n rest (p :: seen)
              { inDegree := Function.update t.inDegree n.id (t.inDegree n.id + 1)
                successors := Function.update t.successors p (t.successors p ++ [n.id]) }
            have heq : addEdges producer size n (inp :: rest) seen t =
                addEdges producer size n rest (p :: seen)
                  { inDegree := Function.update t.inDegree n.id (t.inDegree n.id + 1)
                    successors := Function.update t.successors p
                      (t.successors p ++ [n.id]) } := by
              simp only [addEdges, hp]
              rw [if_neg fun h => h.elim (fun h => absurd hlt (not_lt.mpr h)) hseen]
            have hsplit : insert p (predecessors producer size rest) \ seen.toFinset =
                insert p (predecessors producer size rest \ (p :: seen).toFinset) := by
              ext i
              simp only [Finset.mem_sdiff, Finset.mem_insert, List.toFinset_cons, not_or]
              by_cases hi : i = p
              · simp [hi, hnot]
              · simp [hi]
            have hnew : p ∉ predecessors producer size rest \ (p :: seen).toFinset := by simp
            rw [heq, hsplit]
            refine ⟨?_, fun i => ?_⟩
            · simp only [hdeg, Finset.card_insert_of_notMem hnew, Function.update_idem,
                Function.update_self]
              push_cast
              ring_nf
            · simp only [hsucc i]
              by_cases hi : i = p
              · subst hi
                simp
              · rw [Function.update_of_ne hi]
                simp [hi]

/-- **The edges of a list of nodes** with different ids. -/
lemma foldl_addEdges : ∀ {ns : List GraphNode}, (ns.map (·.id)).Nodup → ∀ (t : TopoTables),
    (∀ n ∈ ns, t.inDegree n.id = 0) →
    (∀ i, i ∉ ns.map (·.id) → (ns.foldl
      (fun t n => addEdges producer size n n.inputs [] t) t).inDegree i = t.inDegree i) ∧
    (∀ n ∈ ns, (ns.foldl (fun t n => addEdges producer size n n.inputs [] t) t).inDegree n.id =
      (predecessors producer size n.inputs).card) ∧
    ∀ p, (ns.foldl (fun t n => addEdges producer size n n.inputs [] t) t).successors p =
      t.successors p ++
        (ns.filter fun n => p ∈ predecessors producer size n.inputs).map (·.id)
  | [], _, t, _ => by simp
  | n :: ns, hnodup, t, hzero => by
      rw [List.map_cons, List.nodup_cons] at hnodup
      have ⟨hdeg, hsucc⟩ := @addEdges_eq producer size n n.inputs [] t
      rw [hzero n List.mem_cons_self, zero_add, List.toFinset_nil, Finset.sdiff_empty] at hdeg
      have hother : ∀ i, i ≠ n.id →
          (addEdges producer size n n.inputs [] t).inDegree i = t.inDegree i := fun i hi => by
        rw [hdeg, Function.update_of_ne hi]
      obtain ⟨ihout, ihin, ihsucc⟩ := foldl_addEdges hnodup.2
        (addEdges producer size n n.inputs [] t) fun m hm => by
          rw [hother m.id fun h => hnodup.1 (h ▸ List.mem_map_of_mem hm)]
          exact hzero m (List.mem_cons_of_mem n hm)
      simp only [List.foldl_cons]
      refine ⟨fun i hi => ?_, fun m hm => ?_, fun p => ?_⟩
      · rw [List.map_cons, List.mem_cons, not_or] at hi
        rw [ihout i hi.2, hother i hi.1]
      · rcases List.mem_cons.mp hm with rfl | hm
        · rw [ihout _ hnodup.1, hdeg, Function.update_self]
        · exact ihin m hm
      · rw [ihsucc p, hsucc p, List.toFinset_nil, Finset.sdiff_empty, List.filter_cons]
        by_cases hp : p ∈ predecessors producer size n.inputs
        · simp [hp]
        · simp [hp]

end Tables

/-! ## The checks on a graph object -/

section Checks

variable {g : AneGraph}

/-- The ids of the nodes are their positions. -/
lemma node_ids_eq (hids : ∀ i (n : GraphNode), g.nodes[i]? = some n → n.id = i) :
    g.nodes.map (·.id) = List.range g.nodes.length := by
  refine List.ext_getElem (by simp) fun i hi _ => ?_
  rw [List.length_map] at hi
  rw [List.getElem_map, List.getElem_range]
  exact hids i _ (List.getElem?_eq_getElem hi)

lemma node_id_lt (hids : ∀ i (n : GraphNode), g.nodes[i]? = some n → n.id = i) {n : GraphNode}
    (hn : n ∈ g.nodes) : n.id < g.nodes.length := by
  rw [← List.mem_range, ← node_ids_eq hids]
  exact List.mem_map_of_mem hn

lemma getElem?_node_id (hids : ∀ i (n : GraphNode), g.nodes[i]? = some n → n.id = i)
    {n : GraphNode} (hn : n ∈ g.nodes) : g.nodes[n.id]? = some n := by
  obtain ⟨i, hi⟩ := List.mem_iff_getElem?.mp hn
  rw [hids i n hi, hi]

/-- Earlier outputs belong to earlier nodes. -/
lemma id_lt_of_output_lt (hg : g.Wf) {m n : GraphNode} (hm : m ∈ g.nodes) (hn : n ∈ g.nodes)
    (h : m.output < n.output) : m.id < n.id := by
  have hget : ∀ {k : GraphNode}, k ∈ g.nodes → g.nodes[k.id]? = some k := fun hk =>
    node_eq_ok_iff.mp (hg.node_ok hk)
  by_contra hle
  rcases (not_lt.mp hle).lt_or_eq with hlt | heq
  · have hmono := List.pairwise_iff_getElem.mp hg.output_strictMono n.id m.id
      (by simpa using node_id_lt hg.node_id hn) (by simpa using node_id_lt hg.node_id hm) hlt
    obtain ⟨_, hn'⟩ := List.getElem?_eq_some_iff.mp (hget hn)
    obtain ⟨_, hm'⟩ := List.getElem?_eq_some_iff.mp (hget hm)
    rw [List.getElem_map, List.getElem_map, hn', hm'] at hmono
    omega
  · have hsame := hget hn
    rw [heq, hget hm, Option.some.injEq] at hsame
    rw [hsame] at h
    exact lt_irrefl _ h

/-- A producer in the map of `check_topo` is a node with this output. -/
lemma tensorProducer_node {i p : ℕ} (h : tensorProducer g i = some (some p)) :
    ∃ m ∈ g.nodes, m.output = i ∧ m.id = p := by
  have hnodes : ∀ (ns : List GraphNode) (table : ℕ → Option (Option ℕ)),
      ns.foldl (fun (m : ℕ → Option (Option ℕ)) n =>
        Function.update m n.output (some (some n.id))) table i = some (some p) →
      table i = some (some p) ∨ ∃ m ∈ ns, m.output = i ∧ m.id = p := by
    intro ns
    induction ns with
    | nil => exact fun _ => Or.inl
    | cons n ns ih =>
        intro table h
        rcases ih _ h with h | ⟨m, hm, hmi⟩
        · simp only [Function.update_apply] at h
          by_cases hni : n.output = i
          · rw [if_pos hni.symm] at h
            exact Or.inr ⟨n, List.mem_cons_self, hni, Option.some.inj (Option.some.inj h)⟩
          · rw [if_neg (Ne.symm hni)] at h
            exact Or.inl h
        · exact Or.inr ⟨m, List.mem_cons_of_mem n hm, hmi⟩
  have hinputs : ∀ (ids : List ℕ) (table : ℕ → Option (Option ℕ)),
      table i ≠ some (some p) →
      ids.foldl (fun (m : ℕ → Option (Option ℕ)) id => Function.update m id (some none)) table i ≠
        some (some p) := by
    intro ids
    induction ids with
    | nil => exact fun _ => id
    | cons id ids ih =>
        intro table h
        refine ih _ ?_
        simp only [Function.update_apply]
        split_ifs
        · simp
        · exact h
  exact (hnodes _ _ h).resolve_left (hinputs g.graphInputs _ (by simp))

/-- The nodes that node `i` waits for. -/
def nodePreds (g : AneGraph) (i : ℕ) : Finset ℕ :=
  predecessors (tensorProducer g) g.nodes.length ((g.nodes[i]?.map (·.inputs)).getD [])

section Positions

variable (hids : ∀ i (n : GraphNode), g.nodes[i]? = some n → n.id = i)
include hids

lemma nodePreds_eq {n : GraphNode} (hn : n ∈ g.nodes) :
    nodePreds g n.id = predecessors (tensorProducer g) g.nodes.length n.inputs := by
  rw [nodePreds, getElem?_node_id hids hn]
  rfl

lemma exists_node_of_lt {i : ℕ} (hi : i ∈ Finset.range g.nodes.length) :
    ∃ n ∈ g.nodes, n.id = i := by
  rw [← List.mem_map (f := fun n : GraphNode => n.id), node_ids_eq hids]
  simpa using hi

/-- The adjacency list of a node holds the nodes that wait for it. -/
lemma topoTables_successors (p : ℕ) : (topoTables g).successors p =
    (g.nodes.filter fun n => p ∈ predecessors (tensorProducer g) g.nodes.length n.inputs).map
      (·.id) := by
  have hnodup : (g.nodes.map (·.id)).Nodup := node_ids_eq hids ▸ List.nodup_range
  rw [topoTables, (foldl_addEdges hnodup _ fun _ _ => rfl).2.2 p, List.nil_append]

/-- **The tables of `check_topo`** hold the edges between the nodes. -/
lemma topoTables_adjacency :
    Adjacency (Finset.range g.nodes.length) (nodePreds g) (topoTables g).successors := by
  have hnodup : (g.nodes.map (·.id)).Nodup := node_ids_eq hids ▸ List.nodup_range
  have hsucc := topoTables_successors hids
  exact {
    successors_nodup := by
      intro p _
      rw [hsucc p]
      exact hnodup.sublist (List.filter_sublist.map _)
    mem_successors := by
      intro p _ i
      rw [hsucc p, List.mem_map]
      constructor
      · rintro ⟨n, hn, rfl⟩
        obtain ⟨hn, hp⟩ := List.mem_filter.mp hn
        rw [nodePreds_eq hids hn]
        exact ⟨Finset.mem_range.mpr (node_id_lt hids hn), by simpa using hp⟩
      · rintro ⟨hi, hp⟩
        obtain ⟨n, hn, rfl⟩ := exists_node_of_lt hids hi
        rw [nodePreds_eq hids hn] at hp
        exact ⟨n, List.mem_filter.mpr ⟨hn, by simpa using hp⟩, rfl⟩
    preds_subset := by
      intro i _ p hp
      exact Finset.mem_range.mpr (Finset.mem_filter.mp hp).2 }

/-- The queue loop starts with the nodes that wait for no other node. -/
lemma kahnState_start :
    KahnState (Finset.range g.nodes.length) (nodePreds g) ∅
      ((g.nodes.map (·.id)).filter fun i => (topoTables g).inDegree i = 0)
      (topoTables g).inDegree := by
  have hrange := node_ids_eq hids
  have hnodup : (g.nodes.map (·.id)).Nodup := hrange ▸ List.nodup_range
  exact {
    done_subset := Finset.empty_subset _
    queue_nodup := hnodup.filter _
    queue_mem := by
      intro i hi
      have hlt := (List.mem_filter.mp hi).1
      rw [hrange, List.mem_range] at hlt
      exact ⟨Finset.mem_range.mpr hlt, Finset.notMem_empty i⟩
    degree_eq := by
      intro i hi
      obtain ⟨n, hn, rfl⟩ := exists_node_of_lt hids hi
      rw [Finset.sdiff_empty, nodePreds_eq hids hn]
      exact (foldl_addEdges hnodup _ fun _ _ => rfl).2.1 n hn
    zero_iff := by
      intro i hi
      rw [hrange, List.mem_filter]
      simpa using fun _ => Finset.mem_range.mp hi }

/-- `check_topo` is silent if and only if every node is reached by descending chains only. -/
lemma checkTopo_eq_nil_iff :
    checkTopo g = [] ↔ ∀ i ∈ Finset.range g.nodes.length, Acc (fun p j => p ∈ nodePreds g j) i := by
  rw [← kahnLoop_eq_card_iff (topoTables_adjacency hids) (kahnState_start hids)
    (Finset.card_range _).le, Finset.card_range]
  unfold checkTopo
  split_ifs with h
  · simp [h, kahnLoop]
  · simp only [reportIf_eq_nil, ne_eq, not_not]

end Positions

/-- **In a graph object edges go from smaller to larger node ids.** -/
lemma topoTables_ascending (hg : g.Wf) :
    Ascending (Finset.range g.nodes.length) (nodePreds g) (topoTables g).successors := by
  refine ⟨topoTables_adjacency hg.node_id, fun i hi p hp => ?_⟩
  obtain ⟨n, hn, rfl⟩ := exists_node_of_lt hg.node_id hi
  rw [nodePreds_eq hg.node_id hn, predecessors, Finset.mem_filter, List.mem_toFinset,
    List.mem_filterMap] at hp
  obtain ⟨⟨inp, hinp, hprod⟩, -⟩ := hp
  obtain ⟨m, hm, rfl, rfl⟩ := tensorProducer_node (Option.join_eq_some_iff.mp hprod)
  exact id_lt_of_output_lt hg hm hn (hg.input_lt_output n hn _ hinp)

/-- **Graph objects have no cycles to report.** -/
theorem checkTopo_eq_nil (hg : g.Wf) : checkTopo g = [] := by
  unfold checkTopo
  split_ifs with h
  · rfl
  · have hall := kahnLoop_all (topoTables_ascending hg) (kahnState_start hg.node_id)
      (Finset.card_range _).le
    rw [Finset.card_range] at hall
    simpa only [reportIf_eq_nil, ne_eq, not_not] using hall

/-- The shapes of a graph object are valid. -/
theorem checkShapes_eq_nil (hg : g.Wf) : checkShapes g = [] := by
  refine List.flatMap_eq_nil_iff.mpr fun t ht => ?_
  rw [TensorShape.validate_eq_ok_iff.mpr (hg.shape_valid t ht)]

/-- The node loop of `check_edges` is silent when every operand is defined in time. -/
lemma edgeErrors_eq_nil : ∀ {ns : List GraphNode} {defined : List ℕ},
    StraightLine.WellScoped (fun n : GraphNode => n.output) (·.inputs) {i | i ∈ defined} ns →
    edgeErrors defined ns = []
  | [], _, _ => rfl
  | n :: ns, defined, h => by
      rw [edgeErrors, List.append_eq_nil_iff]
      refine ⟨List.flatMap_eq_nil_iff.mpr fun i hi => ?_, edgeErrors_eq_nil ?_⟩
      · rw [reportIf_eq_nil, not_not]
        exact h.1 i hi
      · refine h.2.mono fun i hi => ?_
        exact List.mem_cons.mpr hi

/-- Graph objects have no dangling edges. -/
theorem checkEdges_eq_nil (hg : g.Wf) : checkEdges g = [] := by
  rw [checkEdges, List.append_eq_nil_iff]
  refine ⟨edgeErrors_eq_nil (FusionRules.nodes_wellScoped hg), ?_⟩
  refine List.flatMap_eq_nil_iff.mpr fun oid hoid => ?_
  have hlt := hg.graphOutput_lt oid hoid
  rw [if_neg (not_le.mpr hlt), reportIf_eq_nil, not_not, List.mem_append, List.mem_map]
  exact hg.tensor_source oid hlt

end Checks

end GraphValidator

namespace AneGraph

/-! ## The builder -/

/-- What a call throws, if it does. -/
def thrown (g : AneGraph) : BuilderCall → Option Failure
  | .AddInput name shape => failureOf (g.addInput name shape).1
  | .AddOp op inputs outputShape weights => failureOf (g.addOp op inputs outputShape weights).1
  | .MarkOutput tensorId name => failureOf (g.markOutput tensorId name).1
where
  failureOf {α : Type} : Outcome α → Option Failure
    | .ok _ => none
    | .error e => some e

lemma checkOperands_invalid {g : AneGraph} : ∀ {inputs : List ℕ} {e : Failure},
    g.checkOperands inputs = .error e → ∃ what, e = .InvalidArgument what
  | tid :: rest, e, h => by
      rw [checkOperands] at h
      split_ifs at h
      · exact ⟨_, (Except.error.inj h).symm⟩
      · exact checkOperands_invalid h

/-- **Atomicity.**  What builder calls throw is `std::invalid_argument`, and a call that throws
leaves the graph as it was. -/
lemma call_of_thrown {g : AneGraph} {c : BuilderCall} {e : Failure} (h : g.thrown c = some e) :
    (∃ what, e = .InvalidArgument what) ∧ g.call c = g := by
  cases c with
  | AddInput name shape =>
      rw [thrown, addInput] at h
      rw [call, addInput]
      rcases shape.validate_cases with hs | ⟨what, hs⟩
      · simp [hs, thrown.failureOf] at h
      · simp only [hs, thrown.failureOf, Option.some.injEq] at h ⊢
        exact ⟨⟨what, h.symm⟩, trivial⟩
  | AddOp op inputs outputShape weights =>
      rw [thrown, addOp] at h
      rw [call, addOp]
      rcases outputShape.validate_cases with hs | ⟨what, hs⟩
      · cases hc : g.checkOperands inputs with
        | error e' =>
            simp only [hs, hc, thrown.failureOf, Option.some.injEq] at h ⊢
            exact ⟨h ▸ checkOperands_invalid hc, trivial⟩
        | ok u => simp [hs, hc, thrown.failureOf] at h
      · simp only [hs, thrown.failureOf, Option.some.injEq] at h ⊢
        exact ⟨⟨what, h.symm⟩, trivial⟩
  | MarkOutput tensorId name =>
      rw [thrown, markOutput] at h
      rw [call, markOutput]
      by_cases hid : tensorId ≥ g.tensors.length
      · rw [if_pos hid] at h ⊢
        exact ⟨⟨_, (Option.some.inj h).symm⟩, rfl⟩
      · rw [if_neg hid] at h
        cases h

/-- A node is determined by its weight file. -/
lemma eq_of_weightFile_eq {g : AneGraph} (hg : g.Wf) {m n : GraphNode} (hm : m ∈ g.nodes)
    (hn : n ∈ g.nodes) (hne : n.weightFile ≠ "") (h : m.weightFile = n.weightFile) : m = n := by
  have hname : ∀ k ∈ g.nodes, k.weightFile ≠ "" →
      k.weightFile.toList = 'w' :: ((toString k.id).toList ++ '.' :: ['b', 'i', 'n']) := by
    intro k hk hne
    rw [hg.weightFile_eq k hk, weightFileOf] at hne ⊢
    split_ifs at hne ⊢ with hw
    · exact absurd rfl hne
    · simp
  have heq := congrArg String.toList h
  rw [hname m hm (h ▸ hne), hname n hn hne, List.cons.injEq] at heq
  have hid := (Names.numeral_append_inj (by decide) (by decide) heq.2).1
  have hget := hg.node_ok hm
  rw [hid, hg.node_ok hn] at hget
  exact (Except.ok.inj hget).symm

/-- Weight files of different nodes have different names. -/
lemma weightFiles_nodup {g : AneGraph} (hg : g.Wf) :
    ((g.nodes.map (·.weightFile)).filter (· ≠ "")).Nodup := by
  rw [List.filter_map]
  refine List.Nodup.map_on (fun m hm n hn h => ?_) ((FusionRules.nodes_nodup hg).filter _)
  obtain ⟨hm, -⟩ := List.mem_filter.mp hm
  obtain ⟨hn, hne⟩ := List.mem_filter.mp hn
  exact eq_of_weightFile_eq hg hm hn (by simpa using hne) h

/-- **Builder invariant.**  After every sequence of builder calls, failing ones included: ids are
positions; the graph inputs are the tensors without producer; producers and outputs refer to each
other; operands come before results; marked outputs exist; shapes are valid; weight files have
different names; a further call that throws changes nothing.  The validator finds nothing wrong
with the shapes, the edges and the order of such a graph. -/
theorem builder_invariant (calls : List BuilderCall) :
    let g := build calls
    (∀ (i : ℕ) (t : GraphTensor), g.tensors[i]? = some t → t.id = i) ∧
    (∀ (i : ℕ) (n : GraphNode), g.nodes[i]? = some n → n.id = i) ∧
    (∀ i, i ∈ g.graphInputs ↔ ∃ t, g.tensors[i]? = some t ∧ t.producerNodeId = none) ∧
    (∀ t ∈ g.tensors, ∀ p, t.producerNodeId = some p →
      ∃ n, g.nodes[p]? = some n ∧ n.output = t.id) ∧
    (∀ n ∈ g.nodes, ∃ t, g.tensors[n.output]? = some t ∧ t.producerNodeId = some n.id) ∧
    (∀ n ∈ g.nodes, ∀ i ∈ n.inputs, i < n.output) ∧
    (∀ i ∈ g.graphOutputs, i < g.tensors.length) ∧
    (∀ t ∈ g.tensors, t.shape.validate = .ok ()) ∧
    ((g.nodes.map (·.weightFile)).filter (· ≠ "")).Nodup ∧
    (∀ (c : BuilderCall) (e : Failure), g.thrown c = some e →
      (∃ what, e = .InvalidArgument what) ∧ g.call c = g) ∧
    GraphValidator.checkShapes g = [] ∧ GraphValidator.checkEdges g = [] ∧
    GraphValidator.checkTopo g = [] := by
  intro g
  have hg : g.Wf := wf_build calls
  have htensor : ∀ i < g.tensors.length, ∃ t, g.tensors[i]? = some t ∧ t ∈ g.tensors ∧ t.id = i :=
    fun i hi => ⟨_, List.getElem?_eq_getElem hi, List.getElem_mem hi,
      hg.tensor_id i _ (List.getElem?_eq_getElem hi)⟩
  refine ⟨hg.tensor_id, hg.node_id, fun i => ⟨fun hi => ?_, ?_⟩, hg.producer_some, fun n hn => ?_,
    hg.input_lt_output, hg.graphOutput_lt,
    fun t ht => TensorShape.validate_eq_ok_iff.mpr (hg.shape_valid t ht), weightFiles_nodup hg,
    fun c e => call_of_thrown, GraphValidator.checkShapes_eq_nil hg,
    GraphValidator.checkEdges_eq_nil hg, GraphValidator.checkTopo_eq_nil hg⟩
  · obtain ⟨t, ht, hmem, hid⟩ := htensor i (hg.graphInput_lt i hi)
    exact ⟨t, ht, (hg.producer_none t hmem).mpr (hid ▸ hi)⟩
  · rintro ⟨t, ht, hnone⟩
    rw [← hg.tensor_id i t ht]
    exact (hg.producer_none t (List.mem_of_getElem? ht)).mp hnone
  · obtain ⟨t, ht, hmem, hid⟩ := htensor n.output (hg.output_lt n hn)
    refine ⟨t, ht, ?_⟩
    cases hp : t.producerNodeId with
    | none =>
        have hin := (hg.producer_none t hmem).mp hp
        exact absurd (hid ▸ rfl) (hg.graphInput_ne_output _ hin n hn)
    | some p =>
        obtain ⟨m, hm, ho⟩ := hg.producer_some t hmem p hp
        have hmn := FusionRules.eq_of_output_eq hg (List.mem_of_getElem? hm) hn (ho.trans hid)
        rw [← hmn, hg.node_id p m hm]

end AneGraph

end Libane
