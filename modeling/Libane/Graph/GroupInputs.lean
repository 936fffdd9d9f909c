import Libane.Graph.BuilderChecks
import Libane.Graph.LoweringTotal

/-!
# The inputs of a group

A group that is extended gains only inputs that it does not list yet; a group that is started
lists every operand of its first node, repeated ones included.

* `DirectlyAfter` — the nodes that join the group of the node before them.
* `Schedule.directlyAfter`, `not_directlyAfter_of_head` — they are the members of a group other
  than its first, as far as fusion supports them.
* `group_inputs_nodup_iff` — when all groups have different inputs.
-/

namespace Libane

open GraphValidator MilBackend

namespace FusionRules

/-- The node before `n` produces the first operand of `n`, and nothing else uses it. -/
def DirectlyAfter (g : AneGraph) (n : GraphNode) : Prop :=
  ∃ p ∈ g.nodes, p.id + 1 = n.id ∧ n.inputs.head? = some p.output ∧ uses g p.output = 1

/-- Adding sides adds no duplicates, and removes none. -/
lemma nodup_addSides : ∀ (sides inputs : List ℕ), (addSides inputs sides).Nodup ↔ inputs.Nodup
  | [], _ => Iff.rfl
  | side :: rest, inputs => by
      rw [addSides, nodup_addSides rest]
      split_ifs with h
      · exact Iff.rfl
      · have hne : ∀ a ∈ inputs, a ≠ side := fun a ha hs => h (hs ▸ ha)
        simpa [List.nodup_append] using fun _ => hne

/-- The inputs of a group are different when the operands of its first member are. -/
lemma Grouped.nodup_inputs_iff {g : AneGraph} {group : FusionGroup} {ms : List GraphNode}
    (h : Grouped g group ms) :
    ∀ {n}, ms.head? = some n → (group.inputs.Nodup ↔ n.inputs.Nodup) := by
  induction h with
  | start n hn => rintro _ ⟨rfl⟩; exact Iff.rfl
  | extend group ms last n hn hlast hext h ih =>
      intro first hfirst
      rw [List.head?_append_of_ne_nil _ h.ne_nil] at hfirst
      exact (nodup_addSides n.inputs.tail group.inputs).trans (ih hfirst)

section Schedule

variable {g : AneGraph} (hg : g.Wf) (S : Schedule g)

include hg

/-- The schedule's stretches are as long as the rules allow. -/
lemma Schedule.separate : (S.groups.map (members g)).IsChain (Separate g) := by
  obtain ⟨groups, mss, hok, hp, hs, -⟩ := computeGroups_spec hg
  obtain rfl := hp.eq_members hg
  obtain rfl : S.groups = groups := Except.ok.inj (S.computed.symm.trans hok)
  exact hs

/-- Two neighbours in the node list have neighbouring ids. -/
lemma id_of_neighbours {before after : List GraphNode} {a b : GraphNode}
    (h : g.nodes = before ++ a :: b :: after) : a.id + 1 = b.id := by
  have ha : g.nodes[before.length]? = some a := by rw [h]; simp
  have hb : g.nodes[before.length + 1]? = some b := by
    rw [h, List.getElem?_append_right (Nat.le_succ _)]
    simp
  rw [hg.node_id _ a ha, hg.node_id _ b hb]

/-- A member other than the first follows the member before it. -/
lemma Schedule.directlyAfter {group : FusionGroup} (hmem : group ∈ S.groups)
    {before after : List GraphNode} {a n : GraphNode}
    (h : members g group = before ++ a :: n :: after) : DirectlyAfter g n := by
  obtain ⟨l, r, hsplit⟩ := List.append_of_mem hmem
  have hnodes : g.nodes = (l.flatMap (members g) ++ before) ++ a :: n :: (after ++
      r.flatMap (members g)) := by
    rw [← S.covers, hsplit, List.flatMap_append, List.flatMap_cons, h]
    simp
  obtain ⟨hhead, huses⟩ := (S.grouped hmem).linked before a n after h
  exact ⟨a, by rw [hnodes]; simp, id_of_neighbours hg hnodes, hhead, huses⟩

/-- **A node that directly follows its operand may join the operand's group.** -/
lemma DirectlyAfter.extends {n p : GraphNode} (hn : n ∈ g.nodes) (hop : opSupported n.op = true)
    {group : FusionGroup} {ms : List GraphNode} (hgroup : Grouped g group ms)
    (hlast : ms.getLast? = some p) (hhead : n.inputs.head? = some p.output)
    (huses : uses g p.output = 1) : Extends g ms p n := by
  have hread : p.output ∈ n.inputs := List.mem_of_mem_head? hhead
  have hlt := hg.input_lt_output n hn _ hread
  have hout : group.output = p.output := hgroup.output_eq hlast
  have hnew : ∀ m ∈ ms, m ≠ n := fun m hm hmn => by
    have := hgroup.output_le hg m hm
    rw [hmn, hout] at this
    omega
  exact {
    supported := hop
    head_eq := hhead
    uses_eq := huses
    file_ne := fun hne m hm heq =>
      hnew m hm (AneGraph.eq_of_weightFile_eq hg (hgroup.resolves.2 m hm) hn hne heq)
    side_ne := by
      intro side hside m hm hmo
      subst hmo
      rcases hgroup.fused_or_last m hm with hfused | ⟨hone, B, hB, hBread⟩
      · -- the first two operands would be the same tensor
        obtain ⟨x, y, rest, hxy⟩ : ∃ x y rest, n.inputs = x :: y :: rest := by
          match hins : n.inputs with
          | [] => simp [hins] at hside
          | [x] => simp [hins] at hside
          | x :: y :: rest => exact ⟨x, y, rest, rfl⟩
        rw [hxy] at hside hhead
        obtain rfl : y = m.output := by simpa using hside
        obtain rfl : x = p.output := by simpa using hhead
        have hcount := (uses_eq_one hn hread huses).1
        rw [hxy, ← hout, ← hfused] at hcount
        simp at hcount
      · have hmem : m.output ∈ n.inputs := List.mem_of_getElem? hside
        exact hnew B hB ((uses_eq_one (hgroup.resolves.2 B hB) hBread hone).2.1 n hn hmem).symm }

end Schedule

variable (G : AcceptedGraph)

/-- **The first member of a group does not directly follow its operand**, unless fusion does not
support it. -/
lemma not_directlyAfter_of_head (S : Schedule G.graph) {group : FusionGroup}
    (hmem : group ∈ S.groups) {n : GraphNode} (hn : (members G.graph group).head? = some n)
    (hop : opSupported n.op = true) : ¬ DirectlyAfter G.graph n := by
  rintro ⟨p, hp, hid, hhead, huses⟩
  have hnn : n ∈ G.graph.nodes := S.member_mem hmem (List.mem_of_mem_head? hn)
  obtain ⟨l, r, hsplit⟩ := List.append_of_mem hmem
  obtain ⟨ms, hms⟩ : ∃ ms, members G.graph group = n :: ms := by
    match hgroup : members G.graph group with
    | [] => simp [hgroup] at hn
    | m :: ms =>
        obtain rfl : m = n := by simpa [hgroup] using hn
        exact ⟨ms, rfl⟩
  rcases List.eq_nil_or_concat l with rfl | ⟨l, prev, rfl⟩
  · -- the first group starts with the first node
    have hfirst : G.graph.nodes[0]? = some n := by rw [← S.covers, hsplit]; simp [hms]
    have := G.wf.node_id 0 n hfirst
    omega
  rw [List.concat_eq_append, List.append_assoc, List.singleton_append] at hsplit
  have hprev : prev ∈ S.groups := by rw [hsplit]; simp
  obtain ⟨last, hlast⟩ : ∃ m, (members G.graph prev).getLast? = some m :=
    Option.isSome_iff_exists.mp (by simpa using (S.grouped hprev).ne_nil)
  -- the last member of the group before is the node before
  obtain ⟨init, hinit⟩ : ∃ init, members G.graph prev = init ++ [last] :=
    ⟨_, (List.dropLast_append_getLast? last hlast).symm⟩
  have hnodes : G.graph.nodes = (l.flatMap (members G.graph) ++ init) ++ last :: n ::
      (ms ++ r.flatMap (members G.graph)) := by
    rw [← S.covers, hsplit, List.flatMap_append, List.flatMap_cons, List.flatMap_cons, hms, hinit]
    simp
  have hlastid := id_of_neighbours G.wf hnodes
  have hlp : last = p := by
    have h₁ := G.wf.node_ok (n := last) (by rw [hnodes]; simp)
    have h₂ := G.wf.node_ok hp
    rw [show last.id = p.id by omega, h₂] at h₁
    exact (Except.ok.inj h₁).symm
  subst hlp
  have hext := DirectlyAfter.extends G.wf hnn hop (S.grouped hprev) hlast hhead huses
  have hsep := S.separate G.wf
  rw [hsplit, List.map_append, List.map_cons, List.map_cons] at hsep
  exact (List.isChain_cons_cons.mp hsep.right_of_append).1 _ _ hlast hn hext

/-- A node with a repeated operand can be fused. -/
lemma opSupported_of_repeated {n : GraphNode} (hn : n ∈ G.graph.nodes) (h : ¬ n.inputs.Nodup) :
    opSupported n.op = true := by
  obtain ⟨t, -, herr⟩ := G.opErrors_eq_nil hn
  cases hop : n.op <;> simp only [hop, opErrors, Except.ok.injEq, List.cons_ne_self,
    unaryErrors_eq_nil_iff] at herr
  case Cast =>
    obtain ⟨x, hx⟩ := List.length_eq_one_iff.mp herr.2
    exact absurd (by rw [hx]; exact List.nodup_singleton x) h
  all_goals rfl

/-- The groups of a graph declare different inputs, and so do the signatures built from them. -/
def InputsDistinct (g : AneGraph) : Prop :=
  ∀ groups, computeGroups g = .ok groups → ∀ group ∈ groups, group.inputs.Nodup ∧
    ∀ inputs, fusedInputs g group.inputs = .ok inputs → (inputs.map (·.varName)).Nodup

/-- **Group inputs.**  All groups of an accepted graph have pairwise different inputs, and declare
every parameter name once, if and only if every node with a repeated operand directly follows the
node that produces its first operand. -/
theorem group_inputs_nodup_iff : InputsDistinct G.graph ↔
    ∀ n ∈ G.graph.nodes, n.inputs.Nodup ∨ DirectlyAfter G.graph n := by
  obtain ⟨S⟩ := exists_schedule G.wf
  constructor
  · intro h n hn
    obtain ⟨group, hmem, hng⟩ := S.exists_group hn
    obtain ⟨before, after, hsplit⟩ := List.append_of_mem hng
    rcases List.eq_nil_or_concat before with rfl | ⟨before, a, rfl⟩
    · left
      exact ((S.grouped hmem).nodup_inputs_iff (by rw [hsplit]; rfl)).mp
        (h S.groups S.computed group hmem).1
    · right
      have hsplit' : members G.graph group = before ++ a :: n :: after := by
        rw [hsplit]
        simp
      exact S.directlyAfter G.wf hmem hsplit'
  · intro h groups hgroups group hmem
    obtain rfl : S.groups = groups := Except.ok.inj (S.computed.symm.trans hgroups)
    obtain ⟨n, hn⟩ : ∃ n, (members G.graph group).head? = some n :=
      Option.isSome_iff_exists.mp (by simpa using (S.grouped hmem).ne_nil)
    have hnn := S.member_mem hmem (List.mem_of_mem_head? hn)
    have hnodup : group.inputs.Nodup := by
      rw [(S.grouped hmem).nodup_inputs_iff hn]
      by_contra hdup
      exact not_directlyAfter_of_head G S hmem hn (opSupported_of_repeated G hnn hdup)
        ((h n hnn).resolve_left hdup)
    refine ⟨hnodup, fun inputs hinputs => ?_⟩
    rw [(fusedInputs_ok hinputs).1]
    exact hnodup.map tensorVar_injective

/-- A graph that subtracts a tensor from itself. -/
def subGraph : AneGraph :=
  AneGraph.build [.AddInput "x" ⟨1, 1, 1, 16⟩, .AddOp .Sub [0, 0] ⟨1, 1, 1, 16⟩ [],
    .MarkOutput 1 ""]

/-- The only group of this graph lists the tensor twice, and declares its parameter twice. -/
theorem sub_declares_twice : validate subGraph = .ok [] ∧ ¬ InputsDistinct subGraph ∧
    computeGroups subGraph = .ok [⟨[0], [0, 0], 1⟩] ∧
    ∃ inputs, fusedInputs subGraph [0, 0] = .ok inputs ∧
      inputs.map (·.varName) = ["t0", "t0"] :=
  ⟨by decide, fun h => absurd (h _ rfl _ List.mem_cons_self).1 (by decide), rfl, _, rfl, by decide⟩

end FusionRules

end Libane
